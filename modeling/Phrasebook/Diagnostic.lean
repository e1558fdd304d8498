import Phrasebook.Text.Position

/-!
Diagnostics: a code, a message of one line, and where they help a span and a hint. There is one
function per cause, so that every wording stands here once.
-/

namespace Phrasebook

inductive Code where
  | languagesRequired
  | invalidOption
  | unknownOption
  | unmatchedBracket
  | unknownContext
  | unsupportedReference
  | nestingDepthExceeded
  | noLanguageFound
  | loadTimeout
  | loadFailed
  | baseLoadFailed
  | unknownExtension
  | invalidExtensionName
  deriving DecidableEq, Repr

namespace Code

def all : List Code :=
  [languagesRequired, invalidOption, unknownOption, unmatchedBracket, unknownContext,
   unsupportedReference, nestingDepthExceeded, noLanguageFound, loadTimeout, loadFailed,
   baseLoadFailed, unknownExtension, invalidExtensionName]

def name : Code → String
  | languagesRequired => "LANGUAGES_REQUIRED"
  | invalidOption => "INVALID_OPTION"
  | unknownOption => "UNKNOWN_OPTION"
  | unmatchedBracket => "UNMATCHED_BRACKET"
  | unknownContext => "UNKNOWN_CONTEXT"
  | unsupportedReference => "UNSUPPORTED_REFERENCE"
  | nestingDepthExceeded => "NESTING_DEPTH_EXCEEDED"
  | noLanguageFound => "NO_LANGUAGE_FOUND"
  | loadTimeout => "LOAD_TIMEOUT"
  | loadFailed => "LOAD_FAILED"
  | baseLoadFailed => "BASE_LOAD_FAILED"
  | unknownExtension => "UNKNOWN_EXTENSION"
  | invalidExtensionName => "INVALID_EXTENSION_NAME"

/-- Thousands group the codes: configuration, patterns, resolution, loading, extensions. -/
def number : Code → Nat
  | languagesRequired => 1001
  | invalidOption => 1002
  | unknownOption => 1003
  | unmatchedBracket => 2001
  | unknownContext => 2002
  | unsupportedReference => 2003
  | nestingDepthExceeded => 2004
  | noLanguageFound => 3001
  | loadTimeout => 4001
  | loadFailed => 4002
  | baseLoadFailed => 4003
  | unknownExtension => 5001
  | invalidExtensionName => 5002

theorem mem_all (c : Code) : c ∈ all := by cases c <;> decide

end Code

/-- A range of characters; lines and columns count from 1. -/
structure Span where
  start : Nat
  stop : Nat
  line : Nat
  column : Nat
  start_le_stop : start ≤ stop
  line_pos : 1 ≤ line
  column_pos : 1 ≤ column
  deriving DecidableEq, Repr

namespace Span

/-- Why four numbers are no span; the first fault in this order is reported. -/
inductive Fault where
  | startNegative (start : Int)
  | endsBeforeStart (start stop : Int)
  | lineNotPositive (line : Int)
  | columnNotPositive (column : Int)
  deriving DecidableEq, Repr

def Fault.message : Fault → String
  | startNegative start => "SourceSpan.start must be >= 0, got " ++ toString start
  | endsBeforeStart start stop =>
    "SourceSpan.end (" ++ toString stop ++ ") must be >= start (" ++ toString start ++ ")"
  | lineNotPositive line => "SourceSpan.line must be >= 1 (1-indexed), got " ++ toString line
  | columnNotPositive column =>
    "SourceSpan.column must be >= 1 (1-indexed), got " ++ toString column

def check (start stop line column : Int) : Except Fault Span :=
  if _ : start < 0 then .error (.startNegative start)
  else if _ : stop < start then .error (.endsBeforeStart start stop)
  else if _ : line < 1 then .error (.lineNotPositive line)
  else if _ : column < 1 then .error (.columnNotPositive column)
  else .ok ⟨start.toNat, stop.toNat, line.toNat, column.toNat, by omega, by omega, by omega⟩

def point (s : String) (n : Nat) : Span where
  start := n
  stop := n
  line := Text.line s.toList n
  column := (Text.column s.toList n).toNat
  start_le_stop := Nat.le_refl n
  line_pos := Nat.le_add_left ..
  column_pos := by have := Text.one_le_column s.toList n; omega

/-- The empty span at a position that may lie outside the text. -/
def pointAt (s : String) (pos : Int) : Except Fault Span :=
  check pos pos (Text.line s.toList pos) (Text.column s.toList pos)

theorem pointAt_natCast (s : String) (n : Nat) : pointAt s n = .ok (point s n) := by
  have h := Text.one_le_column s.toList n
  have hl : 1 ≤ Text.line s.toList n := Nat.le_add_left ..
  unfold pointAt check
  rw [dif_neg (by omega), dif_neg (by omega), dif_neg (by omega), dif_neg (by omega)]
  rfl

end Span

inductive Severity where
  | error
  | warning
  deriving DecidableEq, Repr

def Severity.name : Severity → String
  | error => "error"
  | warning => "warning"

structure Diagnostic where
  code : Code
  message : String
  span : Option Span
  hint : Option String
  severity : Severity
  deriving DecidableEq, Repr

inductive Cause where
  | unmatchedBracket
  | unknownContext
  | unsupportedReference
  | nestingTooDeep (limit : Int)
  deriving DecidableEq, Repr

namespace Cause

def code : Cause → Code
  | unmatchedBracket => .unmatchedBracket
  | unknownContext => .unknownContext
  | unsupportedReference => .unsupportedReference
  | nestingTooDeep _ => .nestingDepthExceeded

def tooDeep (limit : String) : String := "Directives nested deeper than " ++ limit ++ " levels"

def summary : Cause → String
  | unmatchedBracket => "Unmatched '['"
  | unknownContext => "Unknown context"
  | unsupportedReference => "'_*' is not supported"
  | nestingTooDeep limit => tooDeep (toString limit)

def hint : Cause → Option String
  | unmatchedBracket => some "Close every '[' with ']' or escape it as '~['"
  | unknownContext => some "A directive starts with '', '_N', '*', '#' or a function name"
  | unsupportedReference => some "Reference arguments individually as _1, _2, ... or _-1"
  | nestingTooDeep _ => none

end Cause

namespace Diagnostic

/-- Line ends inside a message are spelled out, so that a message stays on its line. -/
def onOneLine (s : String) : String :=
  String.ofList <| s.toList.flatMap fun c =>
    if c = '\r' then ['\\', 'r'] else if c = '\n' then ['\\', 'n'] else [c]

/-- A header line, a line for the place if there is one, and one for a hint if it is not empty. -/
def format (d : Diagnostic) : String :=
  let header := d.severity.name ++ "[" ++ d.code.name ++ "]: " ++ onOneLine d.message
  let place := d.span.toList.map fun s =>
    "  --> line " ++ toString s.line ++ ", column " ++ toString s.column
  let help := (d.hint.toList.filter (· ≠ "")).map ("  = help: " ++ ·)
  String.intercalate "\n" (header :: place ++ help)

def plain (code : Code) (message : String) (hint : Option String) : Diagnostic :=
  ⟨code, message, none, hint, .error⟩

def languagesRequired : Diagnostic :=
  plain .languagesRequired "languages must not be empty"
    (some "Pass languages=[...] or eager lexicons=\x7btag: \x7b...\x7d\x7d")

def invalidOption (name shown reason : String) : Diagnostic :=
  plain .invalidOption
    ("Invalid value for option '" ++ name ++ "': " ++ shown ++ " (" ++ reason ++ ")") none

def unknownOption (name : String) : Diagnostic :=
  plain .unknownOption ("Unknown option '" ++ name ++ "'")
    (some ("Recognized options: loadTimeout, baseUrl, fallbackLanguages, " ++
      "languages, lexicons, defaultDomain"))

def marked (code : Code) (summary : String) (hint : Option String) (pattern : String) (pos : Int)
    (span : Span) : Diagnostic :=
  ⟨code, summary ++ ": " ++ Text.markAt pattern pos, some span, hint, .error⟩

def withSpan (cause : Cause) : String → Int → Span → Diagnostic :=
  marked cause.code cause.summary cause.hint

def malformed (cause : Cause) (pattern : String) (n : Nat) : Diagnostic :=
  withSpan cause pattern n (.point pattern n)

def malformedAt (cause : Cause) (pattern : String) (pos : Int) : Except Span.Fault Diagnostic :=
  (Span.pointAt pattern pos).map (withSpan cause pattern pos)

def tooDeepAt (limit pattern : String) (pos : Int) : Except Span.Fault Diagnostic :=
  (Span.pointAt pattern pos).map
    (marked .nestingDepthExceeded (Cause.tooDeep limit) none pattern pos)

def noLanguageFound (requested : String) : Diagnostic :=
  plain .noLanguageFound ("No language to load was found for '" ++ requested ++ "'")
    (some "Declare the language or add a fallback language that is available")

def loadTimeout (tag seconds : String) : Diagnostic :=
  plain .loadTimeout
    ("Can't load lexicon for '" ++ tag ++ "': no resource within " ++ seconds ++ "s")
    (some "Check base_url and the resource loader, or raise load_timeout")

def loadFailed (tag reason : String) : Diagnostic :=
  plain .loadFailed ("Can't load lexicon for '" ++ tag ++ "': " ++ reason) none

def baseLoadFailed (tag base : String) : Diagnostic :=
  plain .baseLoadFailed ("Can't load base lexicon '" ++ base ++ "' for '" ++ tag ++ "'")
    (some "Base lexicons must be available; there is no empty fallback base")

def unknownExtension (name : String) : Diagnostic :=
  plain .unknownExtension ("Unknown extension '" ++ name ++ "'")
    (some ("Register it with Localizer.register_extension('" ++ name ++ "', func)"))

def invalidExtensionName (shown : String) : Diagnostic :=
  plain .invalidExtensionName
    ("Invalid extension name " ++ shown ++ ": must match [A-Za-z_$][A-Za-z0-9_]*") none

end Diagnostic

end Phrasebook
