/-!
Notices: what the library tells its operator while it goes on, each with a level and a text.
-/

namespace Phrasebook

inductive Level where
  | warning
  | error
  deriving DecidableEq, Repr

inductive Notice where
  | missingEntry (key domain tag : String)
  | notNumber (shown : String)
  | noLanguage (requested : String)
  | timedOut (tag seconds : String)
  | lateLexicon (tag : String)
  | lateFailure (tag reason : String)
  | notDefined (tag base reason : String)
  | baseFailed (tag base reason : String)
  | unobserved (tag reason : String)
  deriving DecidableEq, Repr

namespace Notice

def level : Notice → Level
  | notDefined .. | baseFailed .. | unobserved .. => .error
  | _ => .warning

def text : Notice → String
  | missingEntry key domain tag =>
    "Missing translation: key '" ++ key ++ "' in domain '" ++ domain ++ "' of lexicon '" ++ tag ++
      "'"
  | notNumber shown => "numf: " ++ shown ++ " is not a number; rendering it unformatted"
  | noLanguage requested => "No language found for request '" ++ requested ++ "'"
  | timedOut tag seconds => "Loading lexicon '" ++ tag ++ "' timed out after " ++ seconds ++ "s"
  | lateLexicon tag => "Dropping late lexicon '" ++ tag ++ "': its load was already resolved"
  | lateFailure tag reason =>
    "Ignoring failure of lexicon '" ++ tag ++ "': its load was already resolved: " ++ reason
  | notDefined tag base reason =>
    "Lexicon '" ++ tag ++ "' not defined: base '" ++ base ++ "' failed to load: " ++ reason
  | baseFailed tag base reason =>
    "Lexicon '" ++ tag ++ "' failed: base '" ++ base ++ "' failed to load: " ++ reason
  | unobserved tag reason =>
    "Lexicon '" ++ tag ++ "' failed and a waiter has no error handler: " ++ reason

end Notice

def Level.name : Level → String
  | .warning => "WARNING"
  | .error => "ERROR"

end Phrasebook
