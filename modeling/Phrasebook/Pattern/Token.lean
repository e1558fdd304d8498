import Phrasebook.Pattern.Escape
import Phrasebook.Text.Digit

/-!
The tokens of a directive: references such as `_2` and `_-1`, the unsupported `_*`, the two
shorthands `*` and `#`, and names. Letters, digits and signs are ASCII here.
-/

namespace Phrasebook.Pattern

def isNameStart (c : Char) : Bool := c.isAlpha || c = '_' || c = '$'

def isWord (c : Char) : Bool := c.isAlphanum || c = '_'

def isName : List Char → Bool
  | [] => false
  | c :: cs => isNameStart c && cs.all isWord

def minusSign : List Char → List Char × List Char
  | '-' :: cs => (['-'], cs)
  | cs => ([], cs)

/-- `_`, an optional minus sign and at least one digit, as many as there are. -/
def scanReference : List Char → Option (List Char × List Char)
  | '_' :: cs =>
    let (sign, cs) := minusSign cs
    let ds := cs.takeWhile Char.isDigit
    if ds = [] then none else some ('_' :: sign ++ ds, cs.dropWhile Char.isDigit)
  | _ => none

/-- The method token of a directive. It may be empty, so there always is one. -/
def scanMethod (cs : List Char) : List Char × List Char :=
  match scanReference cs with
  | some found => found
  | none =>
    match cs with
    | '_' :: '*' :: rest => (['_', '*'], rest)
    | c :: rest =>
      if c = '*' || c = '#' then ([c], rest)
      else if isNameStart c then (c :: rest.takeWhile isWord, rest.dropWhile isWord)
      else ([], c :: rest)
    | [] => ([], [])

def maxReferenceDigits : Nat := 4300

/-- The index that a whole token denotes: `none` if it is no reference, and within that `none` if
it has too many digits. -/
def referenceIndex? (token : List Char) : Option (Option Int) :=
  match scanReference token with
  | some ('_' :: number, []) =>
    let (sign, ds) := minusSign number
    if maxReferenceDigits < ds.length then some none
    else
      let n : Int := Text.ofDigits ds
      some (some (if sign = [] then n else -n))
  | _ => none

def isUnsupported (token : List Char) : Bool := token = ['_', '*']

/-- The shorthands stand for the extensions that choose a form and that format a number. -/
def methodName (token : List Char) : String :=
  if token = ['*'] then "quant"
  else if token = ['#'] then "numf"
  else String.ofList token

theorem scanReference_append {cs token rest : List Char}
    (h : scanReference cs = some (token, rest)) : token ++ rest = cs := by
  unfold scanReference at h
  split at h
  · rename_i cs
    simp only [Option.ite_none_left_eq_some, Option.some.injEq, Prod.mk.injEq] at h
    obtain ⟨-, rfl, rfl⟩ := h
    have hs : (minusSign cs).1 ++ (minusSign cs).2 = cs := by
      unfold minusSign; split <;> rfl
    rw [List.append_assoc, List.takeWhile_append_dropWhile]
    simp [hs]
  · simp at h

theorem scanMethod_append (cs : List Char) : (scanMethod cs).1 ++ (scanMethod cs).2 = cs := by
  unfold scanMethod
  split
  · rename_i found h
    exact scanReference_append h
  · split
    · rfl
    · split
      · rfl
      · split
        · simp [List.takeWhile_append_dropWhile]
        · rfl
    · rfl

theorem length_scanMethod (cs : List Char) : (scanMethod cs).2.length ≤ cs.length := by
  have := congrArg List.length (scanMethod_append cs)
  simp only [List.length_append] at this
  omega

/-- The method token and, unless the pattern ends there, the character behind it. -/
def cutMethod (s : List Char) : List Char × Option (Char × Rest s) :=
  match h : scanMethod s with
  | (token, []) => (token, none)
  | (token, c :: r) =>
    (token, some (c, ⟨r, by
      have := length_scanMethod s
      rw [h] at this
      exact this⟩))

end Phrasebook.Pattern
