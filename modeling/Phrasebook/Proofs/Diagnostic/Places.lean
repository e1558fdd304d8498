import Mathlib.Data.List.TakeWhile
import Phrasebook.Diagnostic
import Phrasebook.Pattern.Cursor
import Phrasebook.Proofs.Pattern.Location

/-!
# Places in a text

A place is given to a reader as a line and a column. Cutting a text at its last line feed shows that
nothing is lost by that: the line is found again by counting line feeds, and the column counts on
from where the line starts, also on a line feed and at the end of the text.
-/

namespace Phrasebook

namespace Text

variable {cs u v w : List Char}

/-- Where a line starts, by its number: behind the lines before it and their line feeds. -/
def lineStart (cs : List Char) (n : Nat) : Nat :=
  (((cs.splitOn '\n').take (n - 1)).flatMap (· ++ ['\n'])).length

example : lineStart "ab\n\nc".toList 3 = 4 := by decide

theorem exists_lastLine (u : List Char) :
    ∃ a w, u = a ++ w ∧ '\n' ∉ w ∧ lastLineStart u = a.length ∧
      (a = [] ∨ ∃ b, a = b ++ ['\n']) := by
  have hcut := List.takeWhile_append_dropWhile (p := (· ≠ '\n')) (l := u.reverse)
  have hlast : '\n' ∉ u.reverse.takeWhile (· ≠ '\n') := by
    intro hmem
    have := List.mem_takeWhile_imp hmem
    simp at this
  have hends := List.head?_dropWhile_not (· ≠ '\n') u.reverse
  unfold lastLineStart
  generalize u.reverse.takeWhile (· ≠ '\n') = w at hcut hlast
  generalize u.reverse.dropWhile (· ≠ '\n') = a at hcut hends
  have hu : u = a.reverse ++ w.reverse := by
    rw [← List.reverse_append, hcut, List.reverse_reverse]
  refine ⟨a.reverse, w.reverse, hu, by simpa using hlast, ?_, ?_⟩
  · rw [hu, List.length_append, List.length_reverse, List.length_reverse, Nat.add_sub_cancel]
  · cases a with
    | nil => exact .inl rfl
    | cons c b =>
      obtain rfl : c = '\n' := by simpa using hends
      exact .inr ⟨b.reverse, List.reverse_cons⟩

theorem length_splitOn (cs : List Char) : (cs.splitOn '\n').length = cs.count '\n' + 1 := by
  induction cs with
  | nil => rfl
  | cons c cs ih =>
    rw [List.splitOn_cons_eq_if_modifyHead, List.count_cons]
    split
    · rw [List.length_cons, ih]
    · rw [List.length_modifyHead, ih, Nat.add_zero]

theorem flatMap_splitOn (cs : List Char) :
    (cs.splitOn '\n').flatMap (· ++ ['\n']) = cs ++ ['\n'] := by
  induction cs with
  | nil => rfl
  | cons c cs ih =>
    rw [List.splitOn_cons_eq_if_modifyHead]
    split
    · rename_i hc
      rw [List.flatMap_cons, ih, eq_of_beq hc]
      rfl
    · obtain ⟨line, lines, hlines⟩ := List.exists_cons_of_ne_nil (List.splitOn_ne_nil '\n' cs)
      rw [hlines, List.flatMap_cons] at ih
      rw [hlines, List.modifyHead_cons, List.flatMap_cons, List.cons_append, List.cons_append, ih]
      rfl

theorem lineStart_append (u v : List Char) :
    lineStart (u ++ v) (u.count '\n' + 1) = lastLineStart u := by
  obtain ⟨a, w, rfl, hw, hstart, rfl | ⟨b, rfl⟩⟩ := exists_lastLine u
  · rw [hstart, List.nil_append, List.count_eq_zero.2 hw]
    rfl
  · have hcount : (b ++ ['\n'] ++ w).count '\n' = (b.splitOn '\n').length := by
      rw [length_splitOn, List.count_append, List.count_append, List.count_eq_zero.2 hw]
      rfl
    have hlines :
        (b ++ ['\n'] ++ w ++ v).splitOn '\n' = b.splitOn '\n' ++ (w ++ v).splitOn '\n' := by
      rw [List.append_assoc, List.append_assoc, List.singleton_append,
        List.splitOn_append_cons_self]
    rw [hstart, lineStart, hlines, hcount, Nat.add_sub_cancel, List.take_left, flatMap_splitOn]

variable {p q : Nat}

theorem before_natCast (h : p ≤ cs.length) : before cs p = cs.take p := by
  rw [before, offset, if_neg (by omega), Int.toNat_natCast, Nat.min_eq_left h]

theorem line_eq (h : p ≤ cs.length) : line cs p = (cs.take p).count '\n' + 1 := by
  rw [line, before_natCast h]

theorem position_eq (h : p ≤ cs.length) :
    (p : Int) = lineStart cs (line cs p) + column cs p - 1 := by
  have hstart := lineStart_append (cs.take p) (cs.drop p)
  rw [List.take_append_drop] at hstart
  rw [line_eq h, hstart, column, before_natCast h]
  omega

theorem line_mono (h : p ≤ q) (hq : q ≤ cs.length) : line cs p ≤ line cs q := by
  rw [line_eq (Nat.le_trans h hq), line_eq hq]
  have hsub : (cs.take p).Sublist (cs.take q) := (List.take_prefix_take_left h).sublist
  exact Nat.add_le_add_right (hsub.count_le '\n') 1

theorem place_lt (h : p < q) (hq : q ≤ cs.length) :
    line cs p < line cs q ∨ line cs p = line cs q ∧ column cs p < column cs q := by
  have hline := line_mono (Nat.le_of_lt h) hq
  have hp := position_eq (Nat.le_trans (Nat.le_of_lt h) hq)
  have hq := position_eq hq
  rcases Nat.lt_or_eq_of_le hline with hlt | heq
  · exact .inl hlt
  · rw [heq] at hp
    exact .inr ⟨heq, by omega⟩

end Text

namespace Diagnostic

open Pattern (Cursor)

/-- What a template says of a position in a pattern: a valid span at its line and column. -/
structure Points (pattern : String) (p : Nat) (span : Span) (d : Diagnostic) : Prop where
  span_eq : d.span = some span
  start : span.start = p
  stop : span.stop = p
  line : span.line = (Cursor.lineColumn ⟨pattern, p⟩).1
  column : span.column = (Cursor.lineColumn ⟨pattern, p⟩).2
  valid : Span.check p p (Cursor.lineColumn ⟨pattern, p⟩).1 (Cursor.lineColumn ⟨pattern, p⟩).2 =
    .ok span

theorem points_of_span {pattern : String} {p : Nat} {d : Diagnostic}
    (h : d.span = some (.point pattern p)) : d.Points pattern p (.point pattern p) := by
  refine ⟨h, rfl, rfl, rfl, ?_, Span.pointAt_natCast pattern p⟩
  have := Text.one_le_column pattern.toList p
  simp only [Span.point, Cursor.lineColumn]
  omega

/-- Line and column identify a position. They come in the order of the positions, the line counts
the line feeds before the position and the column goes on from the start of that line, so that they
lead back to it. Whatever a template says about a position has one and the same span, which is valid
and has this line and this column. -/
theorem place_identifies_position (pattern : String) :
    (∀ p q : Nat, p < q → q ≤ pattern.toList.length →
      Prod.Lex (· < ·) (· < ·) (Cursor.lineColumn ⟨pattern, p⟩) (Cursor.lineColumn ⟨pattern, q⟩)) ∧
    (∀ p : Nat, p ≤ pattern.toList.length →
      let place := Cursor.lineColumn ⟨pattern, p⟩
      place.1 = (pattern.toList.take p).count '\n' + 1 ∧ 1 ≤ place.2 ∧
        (p : Int) = Text.lineStart pattern.toList place.1 + place.2 - 1) ∧
    ∀ p : Nat, ∃ span,
      (∀ cause, (malformed cause pattern p).Points pattern p span) ∧
      (∀ cause, ∃ d, malformedAt cause pattern p = .ok d ∧ d.Points pattern p span) ∧
      ∀ limit, ∃ d, tooDeepAt limit pattern p = .ok d ∧ d.Points pattern p span := by
  refine ⟨fun p q h hq => ?_, fun p h => ?_, fun p => ⟨.point pattern p, fun cause => ?_,
    fun cause => ?_, fun limit => ?_⟩⟩
  · exact Prod.lex_def.2 (Text.place_lt h hq)
  · exact ⟨Text.line_eq h, Text.one_le_column _ p, Text.position_eq h⟩
  · exact points_of_span rfl
  · rw [malformedAt, Span.pointAt_natCast]
    exact ⟨_, rfl, points_of_span rfl⟩
  · rw [tooDeepAt, Span.pointAt_natCast]
    exact ⟨_, rfl, points_of_span rfl⟩

/-- The end of an empty line, which is the line feed behind it, and the start of the next line. -/
theorem place_identifies_position_empty_line :
    ((2 < 3 ∧ 3 ≤ "a\n\n[b".toList.length) ∧
      Prod.Lex (· < ·) (· < ·) (Cursor.lineColumn ⟨"a\n\n[b", 2⟩)
        (Cursor.lineColumn ⟨"a\n\n[b", 3⟩)) ∧
    Cursor.lineColumn ⟨"a\n\n[b", 2⟩ = (2, 1) ∧ Cursor.lineColumn ⟨"a\n\n[b", 3⟩ = (3, 1) ∧
    (2 : Int) = Text.lineStart "a\n\n[b".toList 2 + 1 - 1 ∧
    ∃ span, (malformed .unmatchedBracket "a\n\n[b" 3).Points "a\n\n[b" 3 span := by
  obtain ⟨horder, hback, hspan⟩ := place_identifies_position "a\n\n[b"
  obtain ⟨span, hpoints, -⟩ := hspan 3
  have hfirst : 2 < 3 := by decide
  have hlast : 3 ≤ "a\n\n[b".toList.length := by decide
  exact ⟨⟨⟨hfirst, hlast⟩, horder 2 3 hfirst hlast⟩, by decide, by decide,
    (hback 2 (by decide)).2.2, span, hpoints _⟩

end Diagnostic

end Phrasebook
