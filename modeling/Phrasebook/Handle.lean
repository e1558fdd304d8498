import Phrasebook.Lexicon
import Phrasebook.Quantity

/-!
Rendering entries through a handle: the domain is the one that is asked for, else the one named by
the last argument that names one, else the default domain of the handle. What a missing key gives
is the fallback of the handle.
-/

namespace Phrasebook.Handle

def context (h : Handle) (r : Registry Extension) : Context := Quantity.context r h

def locale (h : Handle) (b : Locale.Library) : String := b.localeOf h.tag

def namedDomain (arg : Value) : Option Value :=
  match arg with
  | .map rows => (Value.row? (.text "domain") rows).filter Value.holds
  | _ => none

/-- Every name is written out, also those that later arguments outdo. -/
def selectDomain (h : Handle) (args : List Value) (domain : Option String) :
    Except Fault String :=
  match domain.filter (· ≠ "") with
  | some d => .ok d
  | none =>
    (args.filterMap namedDomain).foldlM
      (fun _ v => (v.plain.map Except.ok).getD (.error .longNumber)) h.defaultDomain

def missingMark : String := "? "

def fallBack (h : Handle) (key : String) (args : List Value) : Outcome String :=
  match h.fallback with
  | .marker => .ok (missingMark ++ key)
  | .strict => .ok ("<" ++ key ++ ":" ++ toString args.length ++ ">")
  | .raising => .fail (.missingKey key)

def translateIn (h : Handle) (r : Registry Extension) (l : Lexicon) (domain key : String)
    (args : List Value) : Outcome String × Lexicon :=
  match l.formatter r domain key with
  | (.error fault, l) => (.fail fault, l)
  | (.ok (some f), l) => (f.run (h.context r) args, l)
  | (.ok none, l) =>
    ((Outcome.note (.missingEntry key domain h.tag)).andThen fun _ => h.fallBack key args, l)

/-- The text of an entry, and the lexicon in which the entry is compiled now. -/
def translate (h : Handle) (r : Registry Extension) (l : Lexicon) (key : String)
    (args : List Value) (domain : Option String) : Outcome String × Lexicon :=
  match h.selectDomain args domain with
  | .ok d => h.translateIn r l d key args
  | .error fault => (.fail fault, l)

def quantify (h : Handle) (r : Registry Extension) (args : List Value) : Outcome Value :=
  Quantity.writeAll r (Quantity.contexts r h Quantity.stackSize) Quantity.stackSize args

def has (h : Handle) (l : Lexicon) (key : String) (domain : Option String) : Bool :=
  l.has ((domain.filter (· ≠ "")).getD h.defaultDomain) key

end Phrasebook.Handle
