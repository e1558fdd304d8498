import Phrasebook.Number.Binary
import Phrasebook.Number.Numeral
import Phrasebook.Text.Quoted

/-!
Values: what a caller passes to a template and what extensions return. A value has a plain text,
used when it is put into a message, and a quoted text, used inside other values and in error
messages; they differ for texts, decimals and the values that contain them.

An integer of more than `Value.maxDigits` digits has no text.

The kinds of values are those that templates, documents and options are made of. There are no other
objects, whose texts and comparisons could do anything; and a text consists of characters, so that
half of a surrogate pair, where one is read, becomes the replacement character.
-/

namespace Phrasebook

/-- What a handle renders for a missing key: a marked key, a count of arguments, or an error. -/
inductive Fallback where
  | marker
  | strict
  | raising
  deriving DecidableEq, Repr

/-- The lexicon `lexicon` of the shelf, seen through a tag and a default domain. -/
structure Handle where
  lexicon : Nat
  tag : String
  defaultDomain : String
  fallback : Fallback
  deriving DecidableEq, Repr

namespace Handle

def kind (h : Handle) : String :=
  match h.fallback with
  | .marker => "TranslationHandle"
  | .strict => "StrictHandle"
  | .raising => "RaisingHandle"

def text (h : Handle) : String :=
  "TranslationHandle(tag=" ++ Text.quoted h.tag ++ ", default_domain=" ++
    Text.quoted h.defaultDomain ++ ")"

end Handle

inductive Value where
  | none
  | bool (b : Bool)
  | int (n : Int)
  | float (x : Float)
  | decimal (d : Decimal)
  | text (s : String)
  | list (items : List Value)
  | tuple (items : List Value)
  /-- Keys are distinct in the sense of `Value.same`. -/
  | map (rows : List (Value × Value))
  | handle (h : Handle)

namespace Value

instance : Inhabited Value := ⟨none⟩

def kind : Value → String
  | none => "NoneType"
  | bool _ => "bool"
  | int _ => "int"
  | float _ => "float"
  | decimal _ => "Decimal"
  | text _ => "str"
  | list _ => "list"
  | tuple _ => "tuple"
  | map _ => "dict"
  | handle h => h.kind

def maxDigits : Nat := 4300

/-- The text of an integer, which may be too long to be written. -/
def intText (n : Int) : Option String :=
  let ds := Nat.toDigits 10 n.natAbs
  if maxDigits < ds.length then .none
  else some (String.ofList ((if n < 0 then ['-'] else []) ++ ds))

theorem intText_eq_none_iff {n : Int} :
    intText n = .none ↔ maxDigits < (Text.digits n.natAbs).length := by
  simp [intText, Text.digits]

def commaSeparated (texts : List String) : String := String.intercalate ", " texts

mutual

def quoted : Value → Option String
  | none => some "None"
  | bool b => some (if b then "True" else "False")
  | int n => intText n
  | float x => some (Number.floatText x)
  | decimal d => some ("Decimal('" ++ d.text ++ "')")
  | text s => some (Text.quoted s)
  | list items => do
    let texts ← quotedAll items
    return "[" ++ commaSeparated texts ++ "]"
  | tuple items => do
    let texts ← quotedAll items
    return "(" ++ commaSeparated texts ++ (if texts.length = 1 then ",)" else ")")
  | map rows => do
    let texts ← quotedRows rows
    return "\x7b" ++ commaSeparated texts ++ "\x7d"
  | handle h => some h.text

def quotedAll : List Value → Option (List String)
  | [] => some []
  | v :: vs => do
    let t ← quoted v
    let ts ← quotedAll vs
    return t :: ts

def quotedRows : List (Value × Value) → Option (List String)
  | [] => some []
  | (k, v) :: rows => do
    let a ← quoted k
    let b ← quoted v
    let ts ← quotedRows rows
    return (a ++ ": " ++ b) :: ts

end

/-- The plain text: a text is itself, a decimal is its digits, all else is quoted. -/
def plain : Value → Option String
  | text s => some s
  | decimal d => some d.text
  | v => v.quoted

/-- What a value contributes to a message: nothing for `none`. -/
def rendered : Value → Option String
  | none => some ""
  | v => v.plain

/-- Empty values, zeros and `none` do not hold. -/
def holds : Value → Bool
  | none => false
  | bool b => b
  | int n => n ≠ 0
  | float x => x != 0
  | decimal d => !d.isZero
  | text s => s ≠ ""
  | list items | tuple items => !items.isEmpty
  | map rows => !rows.isEmpty
  | handle _ => true

def number? : Value → Option Decimal
  | bool b => some (.finite false (if b then 1 else 0) 0)
  | int n => some (Decimal.ofInt n).normalize
  | decimal d => some d.normalize
  | float x =>
    match Number.magnitude x with
    | .finite b =>
      let d := b.exact
      some (Decimal.finite (Number.isNegative x) d.coefficient d.exponent).normalize
    | .infinite => some (.infinite (Number.isNegative x))
    | .notANumber => some (.notANumber false false 0)
  | _ => .none

/-- Two numbers are the same if they have one value, whatever their kinds. -/
def sameNumber (a b : Decimal) : Bool :=
  match a, b with
  | .notANumber .., _ => false
  | a, b => a = b

mutual

/-- Sameness of keys. Lists and maps are never keys. -/
def same : Value → Value → Bool
  | none, none => true
  | text s, text t => s = t
  | tuple vs, tuple ws => sameAll vs ws
  | handle h, handle k => h = k
  | v, w =>
    match v.number?, w.number? with
    | some a, some b => sameNumber a b
    | _, _ => false

def sameAll : List Value → List Value → Bool
  | [], [] => true
  | v :: vs, w :: ws => same v w && sameAll vs ws
  | _, _ => false

end

mutual

def isKey : Value → Bool
  | list _ | map _ => false
  | decimal (.notANumber _ signalling _) => !signalling
  | tuple vs => areKeys vs
  | _ => true

def areKeys : List Value → Bool
  | [] => true
  | v :: vs => isKey v && areKeys vs

end

/-- Writes a row of a map: a key that is there keeps its place and its first form. -/
def putRow {α : Type} (k : Value) (x : α) : List (Value × α) → List (Value × α)
  | [] => [(k, x)]
  | (a, y) :: rows => if same a k then (a, x) :: rows else (a, y) :: putRow k x rows

/-- Writes rows in turn. -/
def collect {α : Type} (rows : List (Value × α)) : List (Value × α) :=
  rows.foldl (fun m row => putRow row.1 row.2 m) []

def ofRows (rows : List (Value × Value)) : Value := map (collect rows)

def row? (k : Value) : List (Value × Value) → Option Value
  | [] => .none
  | (a, v) :: rows => if same a k then some v else row? k rows

/-- The distinct values of a list, each at its first place. -/
def distinct (vs : List Value) : List Value :=
  vs.foldl (fun seen v => if seen.any (same · v) then seen else seen ++ [v]) []

/-- The values that one gets by going through a value. -/
def items? : Value → Option (List Value)
  | list vs | tuple vs => some vs
  | map rows => some (rows.map Prod.fst)
  | text s => some (s.toList.map fun c => text c.toString)
  | _ => .none

end Value

end Phrasebook
