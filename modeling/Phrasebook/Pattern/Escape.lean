/-!
Escapes and the scanning of text. A tilde before a bracket, a comma or a tilde takes the meaning
of that character away; any other tilde is an ordinary character. `scanText` cuts a text before
the first character that still has a meaning.
-/

namespace Phrasebook.Pattern

def isEscapable (c : Char) : Bool := c = '[' || c = ']' || c = ',' || c = '~'

/-- Removes the tilde of each escape, from left to right. -/
def decode : List Char → List Char
  | '~' :: c :: cs => if isEscapable c then c :: decode cs else '~' :: decode (c :: cs)
  | c :: cs => c :: decode cs
  | [] => []

def encode (cs : List Char) : List Char :=
  cs.flatMap fun c => if isEscapable c then ['~', c] else [c]

def unescape (s : String) : String := String.ofList (decode s.toList)

def scanText (stop : Char → Bool) : List Char → List Char × List Char
  | '~' :: c :: cs =>
    if isEscapable c then
      let (text, rest) := scanText stop cs
      ('~' :: c :: text, rest)
    else
      let (text, rest) := scanText stop (c :: cs)
      ('~' :: text, rest)
  | c :: cs =>
    if stop c then ([], c :: cs)
    else
      let (text, rest) := scanText stop cs
      (c :: text, rest)
  | [] => ([], [])

/-- Text outside directives ends at a bracket that opens one. -/
def opensDirective (c : Char) : Bool := c = '['

/-- Text in an argument also ends where the argument or its directive ends. -/
def endsArgument (c : Char) : Bool := c = '[' || c = ']' || c = ','

theorem encode_cons (c : Char) (cs : List Char) :
    encode (c :: cs) = if isEscapable c then '~' :: c :: encode cs else c :: encode cs := by
  by_cases h : isEscapable c = true <;> simp [encode, h]

theorem decode_cons {c : Char} (h : isEscapable c = false) (cs : List Char) :
    decode (c :: cs) = c :: decode cs := by
  rw [decode]
  rintro d ds rfl
  exact absurd h (by decide)

theorem decode_encode (cs : List Char) : decode (encode cs) = cs := by
  induction cs with
  | nil => rfl
  | cons c cs ih =>
    rw [encode_cons]
    split
    · rename_i h
      rw [decode, if_pos h, ih]
    · rename_i h
      rw [decode_cons (by simpa using h), ih]

theorem scanText_append (stop : Char → Bool) (cs : List Char) :
    (scanText stop cs).1 ++ (scanText stop cs).2 = cs := by
  fun_induction scanText stop cs with
  | case1 c cs h text rest e ih => simp_all
  | case2 c cs h text rest e ih => simp_all
  | case3 c cs _ h => simp
  | case4 c cs _ h text rest e ih => simp_all
  | case5 => rfl

theorem length_scanText (stop : Char → Bool) (cs : List Char) :
    (scanText stop cs).2.length ≤ cs.length := by
  have := congrArg List.length (scanText_append stop cs)
  simp only [List.length_append] at this
  omega

/-- What is left of `s` after at least one character of it was read. -/
abbrev Rest (s : List Char) := { r : List Char // r.length < s.length }

def Rest.within {s : List Char} (r : Rest s) (r' : Rest r.1) : Rest s :=
  ⟨r'.1, Nat.lt_trans r'.2 r.2⟩

/-- The text before the first character that stops it, and that character with what follows it,
unless the text goes to the end. -/
def cutText (stop : Char → Bool) (s : List Char) : List Char × Option (Char × Rest s) :=
  match h : scanText stop s with
  | (text, []) => (text, none)
  | (text, c :: r) =>
    (text, some (c, ⟨r, by
      have := length_scanText stop s
      rw [h] at this
      exact this⟩))

end Phrasebook.Pattern
