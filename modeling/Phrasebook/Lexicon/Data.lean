import Phrasebook.Table
import Phrasebook.Value

/-!
Lexicon data: domains, in each domain keys, and for each key a pattern. Data arrives as an
arbitrary value; the first entry of the wrong shape is reported.
-/

namespace Phrasebook

abbrev LexiconData := Table String (Table String String)

namespace LexiconData

inductive Fault where
  | notMapping (kind : String)
  | domainName (kind : String)
  | notEntries (domain kind : String)
  | entry (shownKey domain keyKind patternKind : String)
  /-- The key to be shown holds an integer that is too long to be written. -/
  | longNumber
  deriving DecidableEq, Repr

namespace Fault

def message : Fault → String
  | notMapping kind => "Lexicon data must be a mapping of domains, got " ++ kind
  | domainName kind => "Domain name must be str, got " ++ kind
  | notEntries domain kind => "Domain '" ++ domain ++ "' must map keys to patterns, got " ++ kind
  | entry shownKey domain keyKind patternKind =>
    "Entry " ++ shownKey ++ " in domain '" ++ domain ++ "' must be str → str, got " ++ keyKind ++
      " → " ++ patternKind
  | longNumber => "Exceeds the limit (4300 digits) for integer string conversion"

def isShape : Fault → Bool
  | longNumber => false
  | _ => true

end Fault

def ofEntry (domain : String) (row : Value × Value) : Except Fault (String × String) :=
  match row with
  | (.text key, .text pattern) => .ok (key, pattern)
  | (k, v) =>
    match k.quoted with
    | some shown => .error (.entry shown domain k.kind v.kind)
    | none => .error .longNumber

def ofDomain (row : Value × Value) : Except Fault (String × Table String String) :=
  match row with
  | (.text domain, .map rows) => do
    let entries ← rows.mapM (ofEntry domain)
    return (domain, .ofList entries)
  | (.text domain, v) => .error (.notEntries domain v.kind)
  | (k, _) => .error (.domainName k.kind)

def ofValue : Value → Except Fault LexiconData
  | .map rows => do
    let domains ← rows.mapM ofDomain
    return .ofList domains
  | v => .error (.notMapping v.kind)

end LexiconData

end Phrasebook
