import Phrasebook.Config
import Phrasebook.Files
import Phrasebook.Locale.Tag
import Phrasebook.Pattern.Parser

/-!
Faults: one constructor per cause of failure, with the wording of each. A fault that users are
meant to read has a diagnostic, and its message is the message of that diagnostic.

Faults of code that is not part of the library are those that a program can recover from. What ends
a program or a thread, such as an interrupt from the keyboard, passes through every handler and is
no fault.
-/

namespace Phrasebook

inductive LoadFailure where
  | timedOut (seconds : String)
  | failed (reason : String)
  | ownBase
  | baseFailed (base : String)
  | baseMissing (base : String)
  deriving DecidableEq, Repr

namespace LoadFailure

def diagnostic (tag : String) : LoadFailure → Option Diagnostic
  | timedOut seconds => some (.loadTimeout tag seconds)
  | failed reason => some (.loadFailed tag reason)
  | baseFailed base => some (.baseLoadFailed tag base)
  | ownBase | baseMissing _ => none

def ownBaseText (tag : String) : String := "Lexicon '" ++ tag ++ "' names itself as base"

def message (tag : String) (f : LoadFailure) : String :=
  match f.diagnostic tag, f with
  | some d, _ => d.message
  | none, baseMissing base =>
    "Base lexicon '" ++ base ++ "' reported loaded but is not installed"
  | none, _ => ownBaseText tag

end LoadFailure

inductive CallbackRole where
  | onSuccess
  | onError
  deriving DecidableEq, Repr

inductive Fault where
  | pattern (f : Pattern.Fault)
  | unknownExtension (name : String)
  | extensionName (shown : String)
  /-- The value given as an extension cannot be called. -/
  | extensionKind (name kind : String)
  | callbackKind (role : CallbackRole) (kind : String)
  | argumentCount
  /-- A value of the wrong kind for what is done with it. -/
  | wrongKind
  | noAttribute
  /-- An integer is too long to be written. -/
  | longNumber
  /-- An integer is too large for a floating-point number. -/
  | tooLarge
  | numberFormat
  /-- The number is out of the range in which numbers are written. -/
  | numberRange
  /-- Patterns that make patterns did not come to an end. -/
  | endless
  | config (f : Config.Fault)
  | languagesRequired
  | locale (f : Locale.Fault)
  | noLanguage (requested : String)
  | data (f : LexiconData.Fault)
  | document (f : Document.Fault)
  | file (f : Files.Fault)
  /-- A definition names its own tag as the base. -/
  | ownBase (tag : String)
  /-- A resource names its own tag as the base. -/
  | ownBaseResource (tag : String)
  | missingKey (key : String)
  | noHandle (tag : String)
  /-- The promise that is asked for its value is still pending. -/
  | pending
  /-- The promise that is to be settled was settled before. -/
  | settledTwice
  /-- The lexicon of a tag was reported loaded and is not there. -/
  | notInstalled
  | load (tag : String) (failure : LoadFailure) (cause : Option Fault)
  | group (faults : List Fault)
  /-- A fault of code that is not part of the library, by its kind and its text. -/
  | raised (kind text : String)
  /-- A fault of such code that has no text: to write it raises another fault. -/
  | wordless (kind : String) (raises : Fault)

namespace Fault

instance : Inhabited Fault := ⟨pending⟩

def CallbackRole.expectation : CallbackRole → String
  | .onSuccess => "on_success must be callable, got "
  | .onError => "on_error must be callable or None, got "

def diagnostic : Fault → Option Diagnostic
  | pattern (.malformed m) => some m.diagnostic
  | unknownExtension name => some (.unknownExtension name)
  | config f => f.diagnostic
  | languagesRequired => some .languagesRequired
  | noLanguage requested => some (.noLanguageFound requested)
  | load tag failure _ => failure.diagnostic tag
  | _ => none

def plainMessage : Fault → String
  | extensionName shown => (Diagnostic.invalidExtensionName shown).message
  | extensionKind name kind => "Extension '" ++ name ++ "' must be callable, got " ++ kind
  | callbackKind role kind => CallbackRole.expectation role ++ kind
  | argumentCount => "wrong number of arguments"
  | wrongKind => "value of the wrong kind"
  | noAttribute => "no such attribute"
  | pattern _ | longNumber => LexiconData.Fault.longNumber.message
  | tooLarge => "integer too large for a floating-point number"
  | numberFormat => "number cannot be formatted"
  | numberRange => "number out of range"
  | endless => "patterns nested without end"
  | locale f => f.message
  | data f => f.message
  | document f => f.message
  | file f => f.message
  | ownBase tag => "Lexicon '" ++ tag ++ "' cannot be its own base"
  | ownBaseResource tag => LoadFailure.ownBaseText tag
  | missingKey key => "missing " ++ key
  | noHandle tag => "no handle for " ++ tag
  | pending => ""
  | settledTwice => "invalid state"
  | notInstalled => ""
  | load tag failure _ => failure.message tag
  | group faults => toString faults.length ++ " lexicon load error(s) raised"
  | raised _ text => text
  | wordless .. => ""
  | unknownExtension _ | config _ | languagesRequired | noLanguage _ => ""

/-- The wording of a fault that has a text. -/
def message (f : Fault) : String := (f.diagnostic.map Diagnostic.message).getD f.plainMessage

/-- The text of a fault, or what is raised when it is written. -/
def text : Fault → Except Fault String
  | wordless _ f => .error f
  | f => .ok f.message

end Fault

end Phrasebook
