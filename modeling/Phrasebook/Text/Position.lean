/-!
Positions in a text. A position counts characters from the start; a negative one counts from the
end, and one outside the text denotes the nearer end. Lines end at line feeds only.
-/

namespace Phrasebook.Text

def offset (cs : List Char) (pos : Int) : Nat :=
  if pos < 0 then (cs.length + pos).toNat else min pos.toNat cs.length

def before (cs : List Char) (pos : Int) : List Char := cs.take (offset cs pos)

def after (cs : List Char) (pos : Int) : List Char := cs.drop (offset cs pos)

def lastLineStart (cs : List Char) : Nat :=
  cs.length - (cs.reverse.takeWhile (· ≠ '\n')).length

def line (cs : List Char) (pos : Int) : Nat := (before cs pos).count '\n' + 1

/-- Column of a position, from 1. A position past the end keeps counting on the last line. -/
def column (cs : List Char) (pos : Int) : Int := pos - lastLineStart (before cs pos) + 1

theorem lastLineStart_le (cs : List Char) : lastLineStart cs ≤ cs.length := Nat.sub_le ..

theorem offset_le_natCast (cs : List Char) (n : Nat) : offset cs n ≤ n := by
  unfold offset; split <;> omega

theorem one_le_column (cs : List Char) (n : Nat) : 1 ≤ column cs n := by
  have h := lastLineStart_le (before cs n)
  have := offset_le_natCast cs n
  simp only [before, List.length_take] at h
  simp only [column, before]
  omega

/-- The sign put into a text at the place a message speaks of. -/
def hereMark : String := " <-- HERE --> "

def markAt (s : String) (pos : Int) : String :=
  String.ofList (before s.toList pos) ++ hereMark ++ String.ofList (after s.toList pos)

end Phrasebook.Text
