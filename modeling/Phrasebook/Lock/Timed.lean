import Phrasebook.Lock
import Phrasebook.Number.Binary

/-!
Locks with a clock: an actor may say how many seconds it is willing to wait. After each step the
sleepers that were notified look again, one after the other, until none of them is left.

Times are those that a system can wait for. An actor that would have to sleep for longer than
`Duration.longestWait` seconds sleeps here like any other; a system refuses to let it.
-/

namespace Phrasebook

structure TimedLock where
  lock : Lock
  now : Float
  /-- When the time of an actor is up. -/
  deadlines : Table Actor Float

namespace TimedLock

def free : TimedLock := ⟨.free, 0.0, .empty⟩

/-- The time of an actor is up. An actor without a deadline has time without end. -/
def isExpired (t : TimedLock) (actor : Actor) : Bool :=
  (t.deadlines.get? actor).any fun deadline => deadline - t.now ≤ 0.0

def record (t : TimedLock) (actor : Actor) (r : Lock × Lock.Attempt) :
    TimedLock × Lock.Attempt :=
  match r with
  | (lock, .asleep) => ({ t with lock }, .asleep)
  | (lock, attempt) => ({ t with lock, deadlines := t.deadlines.erase actor }, attempt)

def acquire (t : TimedLock) (actor : Actor) (mode : Mode) (timeout : Option Float) :
    TimedLock × Lock.Attempt :=
  match timeout with
  | none => t.record actor (t.lock.acquire actor mode false)
  | some seconds =>
    if seconds < 0.0 then (t, .refused (.negativeTimeout (Number.floatText seconds)))
    else
      let t := { t with deadlines := t.deadlines.insert actor (t.now + seconds) }
      t.record actor (t.lock.acquire actor mode (t.isExpired actor))

def release (t : TimedLock) (actor : Actor) (mode : Mode) : TimedLock × Lock.Attempt :=
  match t.lock.release actor mode with
  | .ok lock => ({ t with lock }, .taken)
  | .error f => (t, .refused f)

/-- Lets notified sleepers look again, at most `fuel` times, and says who stopped waiting. -/
def settleWithin : Nat → TimedLock → TimedLock × List (Actor × Lock.Attempt)
  | 0, t => (t, [])
  | fuel + 1, t =>
    match t.lock.sleepers.find? (·.notified) with
    | none => (t, [])
    | some s =>
      let (t, attempt) := t.record s.actor (t.lock.resume s.actor (t.isExpired s.actor))
      let (t, woken) := settleWithin fuel t
      (t, if attempt = .asleep then woken else (s.actor, attempt) :: woken)

/-- A sleeper that looks again stops waiting, and may wake the others once more, or sleeps on
without being notified; so there are at most as many rounds as sleepers, and one more. -/
def settle (t : TimedLock) : TimedLock × List (Actor × Lock.Attempt) :=
  let n := t.lock.sleepers.length + 1
  settleWithin (n * n) t

def pass (t : TimedLock) (seconds : Float) : TimedLock × List (Actor × Lock.Attempt) :=
  settle { t with now := t.now + seconds, lock := t.lock.notifyAll }

inductive Request where
  | take (mode : Mode) (timeout : Option Float)
  | give (mode : Mode)

/-- What an actor asks for, what became of it, and who stopped waiting because of it. An actor that
is asleep asks for nothing. -/
def serve (t : TimedLock) (actor : Actor) (r : Request) :
    Option (Lock.Attempt × TimedLock × List (Actor × Lock.Attempt)) :=
  if t.lock.isAsleep actor then none
  else
    let (t, attempt) :=
      match r with
      | .take mode timeout => t.acquire actor mode timeout
      | .give mode => t.release actor mode
    some (attempt, t.settle)

end TimedLock

end Phrasebook
