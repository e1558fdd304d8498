import Phrasebook.Diagnostic
import Phrasebook.Duration
import Phrasebook.Language

/-!
Configuration: the time limit of a load, the place of the resources, the fallback chain and the
default domain. Fields are checked in this order, and the first that is unusable is reported.
-/

namespace Phrasebook

structure Config where
  loadTimeout : Timeout
  baseUrl : String
  fallbackLanguages : List String
  defaultDomain : String

namespace Config

inductive Fault where
  | invalid (name shown reason : String)
  | unknown (name : String)
  /-- A number of milliseconds is too large for a floating-point number. -/
  | tooLarge
  /-- The value to be shown holds an integer that is too long to be written. -/
  | longNumber
  | unknownField
  deriving DecidableEq, Repr

def Fault.diagnostic : Fault → Option Diagnostic
  | invalid name shown reason => some (.invalidOption name shown reason)
  | unknown name => some (.unknownOption name)
  | _ => none

def invalid (name : String) (v : Value) (reason : String) : Fault :=
  match v.quoted with
  | some shown => .invalid name shown reason
  | none => .longNumber

def anyDomain : String := "*"

def defaultTimeout : Duration := .fractional 20.0

/-- The fields as a caller gives them. -/
structure Fields where
  loadTimeout : Value
  baseUrl : Value
  fallbackLanguages : Value
  defaultDomain : Value

def defaultFields : Fields where
  loadTimeout := defaultTimeout.toValue
  baseUrl := .text ""
  fallbackLanguages := .tuple (Language.defaultChain.map .text)
  defaultDomain := .text anyDomain

def checkTimeout (v : Value) : Except Fault Timeout :=
  match Duration.ofValue? v with
  | some d =>
    if h : d.isTooShort = false then .ok ⟨d, h⟩
    else .error (invalid "load_timeout" v "positive number of seconds")
  | none => .error (invalid "load_timeout" v "positive number of seconds")

def checkBaseUrl : Value → Except Fault String
  | .text s => .ok s
  | v => .error (invalid "base_url" v "str")

def tagOf? : Value → Option String
  | .text s => if s = "" then none else some s
  | _ => none

def checkFallbacks (v : Value) : Except Fault (List String) :=
  match v with
  | .text _ => .error (invalid "fallback_languages" v "sequence of tags")
  | _ =>
    match v.items? with
    | none => .error (invalid "fallback_languages" v "sequence of tags")
    | some items =>
      match items.mapM tagOf? with
      | none =>
        .error (invalid "fallback_languages" (.tuple items) "every tag must be a non-empty str")
      | some tags => .ok tags

def checkDomain (v : Value) : Except Fault String :=
  match tagOf? v with
  | some s => .ok s
  | none => .error (invalid "default_domain" v "non-empty str")

def check (f : Fields) : Except Fault Config := do
  let loadTimeout ← checkTimeout f.loadTimeout
  let baseUrl ← checkBaseUrl f.baseUrl
  let fallbackLanguages ← checkFallbacks f.fallbackLanguages
  let defaultDomain ← checkDomain f.defaultDomain
  return ⟨loadTimeout, baseUrl, fallbackLanguages, defaultDomain⟩

def Fields.set (f : Fields) (name : String) (v : Value) : Option Fields :=
  if name = "load_timeout" then some { f with loadTimeout := v }
  else if name = "base_url" then some { f with baseUrl := v }
  else if name = "fallback_languages" then some { f with fallbackLanguages := v }
  else if name = "default_domain" then some { f with defaultDomain := v }
  else none

def ofFields (rows : List (Value × Value)) : Except Fault Config := do
  let fields ← rows.foldlM (fun f row =>
    match row.1 with
    | .text name => ((f.set name row.2).map Except.ok).getD (.error .unknownField)
    | _ => .error .unknownField) defaultFields
  check fields

inductive Setting where
  /-- The time limit; divided by `10 ^ places` the value is in seconds. -/
  | time (places : Nat)
  | field (name : String)
  deriving DecidableEq, Repr

/-- The options by their names, each field in two spellings. -/
def settings : List (String × Setting) :=
  [("loadTimeout", .time 3), ("load_timeout", .time 0),
   ("baseUrl", .field "base_url"), ("base_url", .field "base_url"),
   ("fallbackLanguages", .field "fallback_languages"),
   ("fallback_languages", .field "fallback_languages"),
   ("defaultDomain", .field "default_domain"), ("default_domain", .field "default_domain")]

def unknown (name : Value) : Fault :=
  match name.plain with
  | some shown => .unknown shown
  | none => .longNumber

def apply (f : Fields) (name v : Value) : Except Fault Fields :=
  match name with
  | .text s =>
    match settings.lookup s with
    | some (.time places) =>
      match Duration.ofValue? v with
      | none => .error (invalid s v "number")
      | some d =>
        match d.perPowerOfTen? places with
        | none => .error .tooLarge
        | some x => .ok { f with loadTimeout := .float x }
    | some (.field field) => .ok ((f.set field v).getD f)
    | none => .error (unknown name)
  | _ => .error (unknown name)

def ofOptions (rows : List (Value × Value)) : Except Fault Config := do
  let fields ← rows.foldlM (fun f row => apply f row.1 row.2) defaultFields
  check fields

end Config

end Phrasebook
