/-!
Language tags and locale codes. A tag joins its parts with hyphens (`de-AT`), a code with
underscores and may carry an encoding or a modifier (`de_AT.UTF-8@euro`).
-/

namespace Phrasebook.Locale

def toCode (tag : String) : String :=
  String.ofList (tag.toList.map fun c => if c = '-' then '_' else c)

def toTag (code : String) : String :=
  String.ofList <| (code.toList.takeWhile (fun c => c ≠ '.' ∧ c ≠ '@')).map fun c =>
    if c = '_' then '-' else c

def isNeutral (code : String) : Bool := code = "C" || code = "POSIX"

def named (code : Option String) : Option String :=
  code.filter fun c => c ≠ "" && !isNeutral c

/-- The environment variables that name a locale, the strongest first. -/
def variableNames : List String := ["LC_ALL", "LC_MESSAGES", "LANG"]

/-- What the system says when it is asked for its locale. -/
inductive SystemReport where
  | locale (code : Option String)
  /-- The locale that is set is no code with an encoding. -/
  | malformed
  /-- The system has no locales. -/
  | unsupported
  deriving DecidableEq, Repr

/-- The code that is reported. A system that cannot answer is passed over. -/
def SystemReport.code? : SystemReport → Option String
  | .locale code => code
  | .malformed => none
  | .unsupported => none

/-- What a program can learn about the language of its user. -/
structure Surroundings where
  system : SystemReport
  environment : List (String × String)

/-- The tag of the code that the system reports, else of the first variable that names one. -/
def detect (s : Surroundings) : Option String :=
  ((named s.system.code?).or
    (variableNames.findSome? fun v => named (s.environment.lookup v))).map toTag

def defaultTag : String := "en-US"

inductive Fault where
  | undetected
  deriving DecidableEq, Repr

def Fault.message : Fault → String
  | undetected =>
    "Could not determine system language. " ++
      "Set LC_ALL, LC_MESSAGES, or LANG environment variable."

/-- The language of the user, which must be detected if it is `required`. -/
def systemLanguage (required : Bool) (s : Surroundings) : Except Fault String :=
  match detect s with
  | some tag => .ok tag
  | none => if required then .error .undetected else .ok defaultTag

end Phrasebook.Locale
