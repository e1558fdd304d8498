import Phrasebook.Formatter
import Phrasebook.Lexicon.Data

/-!
Lexicons: the patterns of a language by domain and key. A pattern is compiled when it is first
used, and the formatter is kept in its place; nothing else ever changes in a lexicon.
-/

namespace Phrasebook

inductive Entry where
  | raw (pattern : String)
  | compiled (f : Formatter)

namespace Entry

def pattern : Entry → String
  | raw s => s
  | compiled f => f.pattern

def isCompiled : Entry → Bool
  | raw _ => false
  | compiled _ => true

end Entry

structure Lexicon where
  tag : String
  domains : Table String (Table String Entry)

namespace Lexicon

def empty (tag : String) : Lexicon := ⟨tag, .empty⟩

def overlayDomain (domains : Table String (Table String Entry)) (domain : String)
    (entries : Table String String) : Table String (Table String Entry) :=
  domains.insert domain (((domains.get? domain).getD .empty).insertAll (entries.map .raw))

def overlay (domains : Table String (Table String Entry)) (data : LexiconData) :
    Table String (Table String Entry) :=
  data.entries.foldl (fun domains row => overlayDomain domains row.1 row.2) domains

def ofData (tag : String) (data : LexiconData) : Lexicon := ⟨tag, overlay .empty data⟩

def source (l : Lexicon) : Table String (Table String String) :=
  l.domains.map fun entries => entries.map Entry.pattern

/-- A new lexicon with the entries of this one, none of them compiled, and `data` over them. -/
def derive (l : Lexicon) (tag : String) (data : LexiconData) : Lexicon :=
  ⟨tag, overlay (l.source.map fun entries => entries.map .raw) data⟩

def entry? (l : Lexicon) (domain key : String) : Option Entry :=
  (l.domains.get? domain).bind (·.get? key)

def pattern? (l : Lexicon) (domain key : String) : Option String :=
  (l.entry? domain key).map Entry.pattern

def has (l : Lexicon) (domain key : String) : Bool := (l.entry? domain key).isSome

def isCompiled (l : Lexicon) (domain key : String) : Bool :=
  (l.entry? domain key).any Entry.isCompiled

def domainNames (l : Lexicon) : List String := l.domains.keys

def keys (l : Lexicon) (domain : String) : List String :=
  ((l.domains.get? domain).map Table.keys).getD []

def size (l : Lexicon) : Nat := l.domains.values.foldl (fun n entries => n + entries.size) 0

def text (l : Lexicon) : String :=
  "Lexicon(tag=" ++ Text.quoted l.tag ++ ", domains=[" ++
    Value.commaSeparated (l.domainNames.map Text.quoted) ++ "])"

def keep (l : Lexicon) (domain key : String) (f : Formatter) : Lexicon :=
  match l.domains.get? domain with
  | some entries => { l with domains := l.domains.insert domain (entries.insert key (.compiled f)) }
  | none => l

/-- The formatter of an entry, if there is such an entry. A pattern that does not compile stays. -/
def formatter (l : Lexicon) (r : Registry Extension) (domain key : String) :
    Except Fault (Option Formatter) × Lexicon :=
  match l.entry? domain key with
  | none => (.ok none, l)
  | some (.compiled f) => (.ok (some f), l)
  | some (.raw pattern) =>
    match Formatter.ofPattern r pattern with
    | .ok f => (.ok (some f), l.keep domain key f)
    | .error fault => (.error fault, l)

end Lexicon

end Phrasebook
