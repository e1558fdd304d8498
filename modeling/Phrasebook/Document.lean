import Phrasebook.Lexicon.Data

/-!
Documents: decoded values that describe a lexicon. A document is either bare lexicon data, or a
mapping with the key `lexicon`, perhaps the key `base`, and no others.
-/

namespace Phrasebook

/-- What a loader delivers: lexicon data, and the tag of the lexicon that it extends if any. -/
structure Resource where
  data : Value
  base : Option String

namespace Document

inductive Fault where
  | badBase (shown : String)
  | badData (f : LexiconData.Fault)
  /-- The base to be shown holds an integer that is too long to be written. -/
  | longNumber
  deriving DecidableEq, Repr

def Fault.message : Fault → String
  | badBase shown => "Lexicon base must be a non-empty tag, got " ++ shown
  | badData f => "Malformed lexicon document: " ++ f.message
  | longNumber => LexiconData.Fault.longNumber.message

def isPartName : Value → Bool
  | .text s => s = "lexicon" || s = "base"
  | _ => false

def parts (document : Value) : Value × Value :=
  match document with
  | .map rows =>
    match Value.row? (.text "lexicon") rows with
    | some data =>
      if rows.all (isPartName ·.1) then (data, (Value.row? (.text "base") rows).getD .none)
      else (document, .none)
    | none => (document, .none)
  | _ => (document, .none)

def checkBase (base : Value) : Except Fault (Option String) :=
  match base with
  | .none => .ok none
  | .text s => if s = "" then .error (.badBase (Text.quoted s)) else .ok (some s)
  | v =>
    match v.quoted with
    | some shown => .error (.badBase shown)
    | none => .error .longNumber

def read (document : Value) : Except Fault Resource := do
  let (data, base) := parts document
  let base ← checkBase base
  match LexiconData.ofValue data with
  | .ok _ => return ⟨data, base⟩
  | .error .longNumber => throw .longNumber
  | .error f => throw (.badData f)

end Document

end Phrasebook
