import Phrasebook.Duration
import Phrasebook.Lexicon
import Phrasebook.Loading.Store
import Phrasebook.Outcome

/-!
The desk of a service: its lexicons, its store, and the log of what happened. Lexicons are kept on
a shelf and known by their places there, so that a handle keeps the lexicon that it was made for
when another one is installed under its tag.
-/

namespace Phrasebook

structure Service where
  hasLoader : Bool
  timeout : Timeout
  baseUrl : String

structure Desk (σ ε : Type) where
  service : Service
  shelf : List Lexicon
  store : Store Nat σ ε
  /-- The requests that were made to the loader, by tag and place. -/
  calls : List (String × String)
  notices : List Notice

namespace Desk

variable {σ ε : Type}

def empty (service : Service) : Desk σ ε := ⟨service, [], .empty, [], []⟩

def note (d : Desk σ ε) (n : Notice) : Desk σ ε := { d with notices := d.notices ++ [n] }

def withStore (d : Desk σ ε) (s : Store Nat σ ε) : Desk σ ε := { d with store := s }

def shelve (d : Desk σ ε) (l : Lexicon) : Nat × Desk σ ε :=
  (d.shelf.length, { d with shelf := d.shelf ++ [l] })

def lexicon? (d : Desk σ ε) (tag : String) : Option Lexicon :=
  (d.store.get? tag).bind (d.shelf[·]?)

def start (d : Desk σ ε) (id : Nat) : Desk σ ε :=
  d.withStore <| d.store.modify id fun l =>
    { l with
      timer := .armed
      fetch := if d.service.hasLoader then .outstanding else .unset }

def install (d : Desk σ ε) (l : Lexicon) : Nat × Option Nat × Desk σ ε :=
  let (place, d) := d.shelve l
  match d.store.install l.tag place with
  | (some id, s) => (place, some id, d.withStore (s.cancelTimer id))
  | (none, s) => (place, none, d.withStore s)

def installLoaded (d : Desk σ ε) (id : Nat) (tag : String) (l : Lexicon) : Bool × Desk σ ε :=
  if d.store.isCurrent id then
    let (place, d) := d.shelve l
    (true, d.withStore ((d.store.installIfPending id l.tag place).2.cancelTimer id))
  else (false, d.note (.lateLexicon tag))

def giveUp (d : Desk σ ε) (id : Nat) (tag : String) (cause : Fault) : Bool × Desk σ ε :=
  match d.store.detach id with
  | (true, s) => (true, d.withStore (s.cancelTimer id))
  | (false, _) => (false, d.note (.lateFailure tag cause.message))

def fire (d : Desk σ ε) (id : Nat) : Desk σ ε :=
  d.withStore (d.store.modify id fun l => { l with timer := .fired })

def answer (d : Desk σ ε) (id : Nat) (tag : String) : Desk σ ε :=
  { d.withStore (d.store.modify id fun l => { l with fetch := .finished }) with
    calls := d.calls ++ [(tag, d.service.baseUrl)] }

inductive Errand where
  | timer (tag : String) (after : Duration)
  | loader (tag : String)

def underWay (d : Desk σ ε) : List Errand :=
  d.store.loads.flatMap fun l =>
    (if l.timer = .armed then [.timer l.tag d.service.timeout.duration] else []) ++
      (if l.fetch = .outstanding then [.loader l.tag] else [])

end Desk

end Phrasebook
