import Phrasebook.Table

/-!
A readers-writer lock that prefers writers. Any number of actors may read, an actor may read again
while it reads, and one actor at a time may write, but only while nobody reads. While a writer
waits, nobody begins to read.

An actor that cannot go on falls asleep. It is woken when it is notified or when its time is up,
and then looks again whether it can go on; only if it cannot does it matter that its time is up.
When a lock becomes free, or a writer stops waiting, all sleepers are notified.
-/

namespace Phrasebook

abbrev Actor := String

inductive Mode where
  | read
  | write
  deriving DecidableEq, Repr

def Mode.name : Mode → String
  | .read => "read"
  | .write => "write"

structure Sleeper where
  actor : Actor
  mode : Mode
  notified : Bool
  deriving DecidableEq, Repr

structure Lock where
  /-- How often each reader has taken the lock. -/
  readers : Table Actor Nat
  writer : Option Actor
  waitingWriters : Nat
  sleepers : List Sleeper

namespace Lock

inductive Fault where
  | readWhileWriting
  | writeWhileReading
  | writeWhileWriting
  | notHeld (mode : Mode)
  | timedOut (mode : Mode)
  | negativeTimeout (shown : String)
  deriving DecidableEq, Repr

def Fault.message : Fault → String
  | readWhileWriting => "Cannot acquire read lock while holding write lock"
  | writeWhileReading => "Cannot upgrade read lock to write lock"
  | writeWhileWriting => "Cannot acquire write lock: already holding write lock"
  | notHeld mode => "Thread does not hold " ++ mode.name ++ " lock"
  | timedOut mode => "Timed out waiting for " ++ mode.name ++ " lock"
  | negativeTimeout shown => "Timeout must be non-negative, got " ++ shown

inductive Attempt where
  | taken
  | asleep
  | refused (f : Fault)
  deriving DecidableEq, Repr

def free : Lock := ⟨.empty, none, 0, []⟩

/-- An actor that does not hold the lock cannot take it now. -/
def isBlocked (l : Lock) : Mode → Bool
  | .read => l.writer.isSome || 0 < l.waitingWriters
  | .write => 0 < l.readers.size || l.writer.isSome

def notifyAll (l : Lock) : Lock :=
  { l with sleepers := l.sleepers.map fun s => { s with notified := true } }

def sleep (l : Lock) (actor : Actor) (mode : Mode) : Lock :=
  { l with sleepers := l.sleepers ++ [⟨actor, mode, false⟩] }

def depth (l : Lock) (actor : Actor) : Nat := (l.readers.get? actor).getD 0

def beginReading (l : Lock) (actor : Actor) : Lock :=
  { l with readers := l.readers.insert actor 1 }

def leaveQueue (l : Lock) (writer : Option Actor) : Lock :=
  notifyAll { l with writer := writer, waitingWriters := l.waitingWriters - 1 }

def contend (l : Lock) (actor : Actor) (mode : Mode) (expired : Bool) : Lock × Attempt :=
  match l.isBlocked mode, expired, mode with
  | false, _, .read => (l.beginReading actor, .taken)
  | false, _, .write => (l.leaveQueue (some actor), .taken)
  | true, true, .read => (l, .refused (.timedOut .read))
  | true, true, .write => (l.leaveQueue l.writer, .refused (.timedOut .write))
  | true, false, mode => (l.sleep actor mode, .asleep)

/-- An actor wants to read; `expired` says that it has no time to wait. -/
def acquireRead (l : Lock) (actor : Actor) (expired : Bool) : Lock × Attempt :=
  if l.readers.contains actor then
    ({ l with readers := l.readers.insert actor (l.depth actor + 1) }, .taken)
  else if l.writer = some actor then (l, .refused .readWhileWriting)
  else l.contend actor .read expired

def acquireWrite (l : Lock) (actor : Actor) (expired : Bool) : Lock × Attempt :=
  if l.readers.contains actor then (l, .refused .writeWhileReading)
  else if l.writer = some actor then (l, .refused .writeWhileWriting)
  else { l with waitingWriters := l.waitingWriters + 1 }.contend actor .write expired

def acquire (l : Lock) (actor : Actor) (mode : Mode) (expired : Bool) : Lock × Attempt :=
  match mode with
  | .read => l.acquireRead actor expired
  | .write => l.acquireWrite actor expired

/-- A sleeper wakes and looks again; `expired` says that its time is up. -/
def resume (l : Lock) (actor : Actor) (expired : Bool) : Lock × Attempt :=
  match l.sleepers.find? (·.actor = actor) with
  | none => (l, .asleep)
  | some s =>
    { l with sleepers := l.sleepers.erase s }.contend actor s.mode expired

def releaseRead (l : Lock) (actor : Actor) : Except Fault Lock :=
  match l.readers.get? actor with
  | none => .error (.notHeld .read)
  | some n =>
    if 1 < n then .ok { l with readers := l.readers.insert actor (n - 1) }
    else
      let l := { l with readers := l.readers.erase actor }
      .ok (if l.readers.size = 0 then l.notifyAll else l)

def releaseWrite (l : Lock) (actor : Actor) : Except Fault Lock :=
  if l.writer = some actor then .ok (notifyAll { l with writer := none })
  else .error (.notHeld .write)

def release (l : Lock) (actor : Actor) : Mode → Except Fault Lock
  | .read => l.releaseRead actor
  | .write => l.releaseWrite actor

def isAsleep (l : Lock) (actor : Actor) : Bool := l.sleepers.any (·.actor = actor)

end Lock

end Phrasebook
