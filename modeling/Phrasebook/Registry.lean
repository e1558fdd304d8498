import Phrasebook.Extension
import Phrasebook.Pattern.Token

/-!
Registries: extensions by their names. Only names that can be written in a pattern can be
registered; registering a name again replaces its extension and keeps its place.
-/

namespace Phrasebook

/-- What is given where a function is expected: a function, or a value of some kind that cannot be
called. -/
inductive Given (φ : Type) where
  | function (f : φ)
  | value (kind : String)

abbrev Registry (φ : Type) := Table String φ

namespace Registry

variable {φ : Type}

def isName (name : Value) : Option String :=
  match name with
  | .text s => if Pattern.isName s.toList then some s else none
  | _ => none

def register (r : Registry φ) (name : Value) (extension : Given φ) : Except Fault (Registry φ) :=
  match isName name, extension with
  | some s, .function f => .ok (r.insert s f)
  | some s, .value kind => .error (.extensionKind s kind)
  | none, _ => .error ((name.quoted.map Fault.extensionName).getD .longNumber)

def resolve (r : Registry φ) (name : String) : Except Fault φ :=
  match r.get? name with
  | some f => .ok f
  | none => .error (.unknownExtension name)

/-- Whether a value is a registered name. Lists and maps cannot be looked up. -/
def has (r : Registry φ) (name : Value) : Except Fault Bool :=
  match name with
  | .text s => .ok (r.contains s)
  | v => if v.isKey then .ok false else .error .wrongKind

def registerAll (r : Registry φ) (rows : List (Value × Given φ)) : Except Fault (Registry φ) :=
  rows.foldlM (fun r row => r.register row.1 row.2) r

def text (r : Registry φ) : String :=
  let names := r.keys.mergeSort (fun a b => a ≤ b)
  "ExtensionRegistry([" ++ Value.commaSeparated (names.map Text.quoted) ++ "])"

def builtins (b : Locale.Library) : Registry Extension :=
  .ofList [("quant", Extension.quant), ("numf", Extension.numf b)]

end Registry

end Phrasebook
