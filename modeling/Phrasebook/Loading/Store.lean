import Phrasebook.Table

/-!
The store of a service: what is installed under each tag, and the load that is pending for a tag.
Every load ever made keeps its number, so that a load that was settled is never taken for a later
load of its tag. A load is settled when it leaves the pending table, and only then are its waiters
told.
-/

namespace Phrasebook

structure Waiter (σ ε : Type) where
  onSuccess : σ
  onError : Option ε

inductive Timer where
  | unset
  | armed
  | cancelled
  | fired
  deriving DecidableEq, Repr

inductive Fetch where
  | unset
  | outstanding
  | finished
  deriving DecidableEq, Repr

/-- What became of a load: it waits for its lexicon, or it was settled in one of two ways. -/
inductive Standing where
  | waiting
  | installed
  | abandoned
  deriving DecidableEq, Repr

/-- A load is told whom to tell. Nothing reads the waiters themselves: they are the history of the
three fields before them, each of which is kept as waiters come. -/
structure Load (σ ε : Type) where
  tag : String
  onSuccess : List σ
  onError : List ε
  /-- Some waiter would not learn of a failure. -/
  isUnobserved : Bool
  /-- In the order in which they came. -/
  waiters : List (Waiter σ ε)
  timer : Timer
  fetch : Fetch
  standing : Standing
  onSuccess_eq : onSuccess = waiters.map Waiter.onSuccess
  onError_eq : onError = waiters.filterMap Waiter.onError
  isUnobserved_eq : isUnobserved = waiters.any (·.onError.isNone)

namespace Load

variable {σ ε : Type}

def new (tag : String) : Load σ ε :=
  ⟨tag, [], [], false, [], .unset, .unset, .waiting, rfl, rfl, rfl⟩

def add (l : Load σ ε) (w : Waiter σ ε) : Load σ ε :=
  { l with
    onSuccess := l.onSuccess ++ [w.onSuccess]
    onError := l.onError ++ w.onError.toList
    isUnobserved := l.isUnobserved || w.onError.isNone
    waiters := l.waiters ++ [w]
    onSuccess_eq := by rw [l.onSuccess_eq, List.map_append, List.map_singleton]
    onError_eq := by
      rw [l.onError_eq, List.filterMap_append]
      cases w with | mk _ e => cases e <;> rfl
    isUnobserved_eq := by simp [l.isUnobserved_eq] }

def hasTimer (l : Load σ ε) : Bool := l.timer ≠ .unset

@[simp] theorem tag_new (tag : String) : (new tag : Load σ ε).tag = tag := rfl

@[simp] theorem waiters_new (tag : String) : (new tag : Load σ ε).waiters = [] := rfl

variable (l : Load σ ε) (w : Waiter σ ε)

@[simp] theorem tag_add : (l.add w).tag = l.tag := rfl

@[simp] theorem waiters_add : (l.add w).waiters = l.waiters ++ [w] := rfl

end Load

/-- What became of a request: the lexicon is there, or the request waits for a load. -/
inductive Registered where
  | loaded
  | joined (load : Nat)
  | created (load : Nat)
  deriving DecidableEq, Repr

namespace Registered

def name : Registered → String
  | loaded => "loaded"
  | joined _ => "joined"
  | created _ => "created"

def load? : Registered → Option Nat
  | loaded => none
  | joined id | created id => some id

end Registered

structure Store (α σ ε : Type) where
  installed : Table String α
  /-- All loads by their numbers. -/
  loads : List (Load σ ε)
  /-- The number of the current load of a tag, the oldest first. -/
  pending : Table String Nat

namespace Store

variable {α σ ε : Type}

def empty : Store α σ ε := ⟨.empty, [], .empty⟩

def get? (s : Store α σ ε) (tag : String) : Option α := s.installed.get? tag

def contains (s : Store α σ ε) (tag : String) : Bool := s.installed.contains tag

def isPending (s : Store α σ ε) (tag : String) : Bool := s.pending.contains tag

def modify (s : Store α σ ε) (id : Nat) (f : Load σ ε → Load σ ε) : Store α σ ε :=
  { s with loads := s.loads.modify id f }

def addWaiter (s : Store α σ ε) (id : Nat) (w : Waiter σ ε) : Store α σ ε :=
  s.modify id (·.add w)

/-- Joins the pending load of a tag, or makes one, unless the tag is installed. -/
def register (s : Store α σ ε) (tag : String) (w : Waiter σ ε) : Registered × Store α σ ε :=
  if s.contains tag then (.loaded, s)
  else
    match s.pending.get? tag with
    | some id => (.joined id, s.addWaiter id w)
    | none =>
      let id := s.loads.length
      (.created id,
        { s with
          loads := s.loads ++ [(Load.new tag).add w]
          pending := s.pending.insert tag id })

/-- A load is current until it is settled. -/
def isCurrent (s : Store α σ ε) (id : Nat) : Bool :=
  s.loads[id]?.any fun l => s.pending.get? l.tag = some id

def mark (s : Store α σ ε) (id : Nat) (standing : Standing) : Store α σ ε :=
  s.modify id fun l => { l with standing }

def settle (s : Store α σ ε) (id : Nat) (standing : Standing) : Store α σ ε :=
  match s.loads[id]? with
  | some l => { s.mark id standing with pending := s.pending.erase l.tag }
  | none => s

/-- Installs under a tag, and settles the load that is pending for it. -/
def install (s : Store α σ ε) (tag : String) (x : α) : Option Nat × Store α σ ε :=
  let put (s : Store α σ ε) : Store α σ ε :=
    { s with installed := s.installed.insert tag x, pending := s.pending.erase tag }
  match s.pending.get? tag with
  | some id => (some id, put (s.mark id .installed))
  | none => (none, put s)

def installIfPending (s : Store α σ ε) (id : Nat) (tag : String) (x : α) : Bool × Store α σ ε :=
  if s.isCurrent id then
    let s := s.settle id .installed
    (true, { s with installed := s.installed.insert tag x })
  else (false, s)

def detach (s : Store α σ ε) (id : Nat) : Bool × Store α σ ε :=
  if s.isCurrent id then (true, s.settle id .abandoned) else (false, s)

/-- A timer that has fired cannot be cancelled. -/
def cancelTimer (s : Store α σ ε) (id : Nat) : Store α σ ε :=
  s.modify id fun l => if l.timer = .armed then { l with timer := .cancelled } else l

def oldest? (s : Store α σ ε) (tag : String) (p : Load σ ε → Bool) : Option Nat :=
  s.loads.findIdx? fun l => l.tag = tag && p l

end Store

end Phrasebook
