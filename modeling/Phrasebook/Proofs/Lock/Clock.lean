import Phrasebook.Lock.Timed
import Phrasebook.Proofs.Lock.Session

/-!
# Locks with a clock

A lock with a clock is a lock whose sleepers wake in a certain order and whose clock says when their
time is up. It goes through no state that a session does not reach, so whatever holds after every
session holds of it at all times.
-/

namespace Phrasebook

namespace Lock

variable {l : Lock}

def Attained (l : Lock) : Prop := ∃ events, (session events).1 = l

theorem attained_free : Attained free := ⟨[], rfl⟩

theorem Attained.next (ha : Attained l) (e : Event) : Attained (l.next e).1 := by
  obtain ⟨events, rfl⟩ := ha
  refine ⟨events ++ [e], ?_⟩
  rw [session_snoc]

theorem Attained.acquire {a : Actor} (ha : Attained l) (hawake : l.isAsleep a = false) (m : Mode)
    (expired : Bool) : Attained (l.acquire a m expired).1 := by
  have hnext := ha.next (.enter a m expired)
  rw [Lock.next, if_neg (Bool.eq_false_iff.mp hawake)] at hnext
  exact hnext

theorem Attained.resume (ha : Attained l) (a : Actor) (expired : Bool) :
    Attained (l.resume a expired).1 := by
  have hnext := ha.next (.wake a expired)
  rw [Lock.next] at hnext
  cases hf : l.sleepers.find? (·.actor = a) with
  | none =>
    rw [Lock.resume, hf]
    exact ha
  | some s =>
    rw [hf] at hnext
    exact hnext

theorem Attained.release {a : Actor} {m : Mode} {l' : Lock} (ha : Attained l)
    (hawake : l.isAsleep a = false) (hr : l.release a m = .ok l') : Attained l' := by
  have hnext := ha.next (.leave a m)
  rw [Lock.next, if_neg (Bool.eq_false_iff.mp hawake), hr] at hnext
  exact hnext

end Lock

namespace TimedLock

variable {t : TimedLock} {a : Actor}

theorem lock_record (t : TimedLock) (a : Actor) (r : Lock × Lock.Attempt) :
    (t.record a r).1.lock = r.1 := by
  obtain ⟨l, attempt⟩ := r
  cases attempt with
  | taken => rfl
  | asleep => rfl
  | refused f => rfl

theorem attained_acquire (ha : t.lock.Attained) (hawake : t.lock.isAsleep a = false) (m : Mode)
    (timeout : Option Float) : (t.acquire a m timeout).1.lock.Attained := by
  unfold acquire
  cases timeout with
  | none =>
    rw [lock_record]
    exact ha.acquire hawake m false
  | some seconds =>
    dsimp only
    split
    · exact ha
    · rw [lock_record]
      exact ha.acquire hawake m _

theorem attained_release (ha : t.lock.Attained) (hawake : t.lock.isAsleep a = false) (m : Mode) :
    (t.release a m).1.lock.Attained := by
  unfold release
  cases hr : t.lock.release a m with
  | ok l => exact ha.release hawake hr
  | error f => exact ha

theorem attained_settleWithin (fuel : Nat) (ha : t.lock.Attained) :
    (settleWithin fuel t).1.lock.Attained := by
  induction fuel generalizing t with
  | zero => exact ha
  | succ fuel ih =>
    rw [settleWithin]
    cases hf : t.lock.sleepers.find? (·.notified) with
    | none => exact ha
    | some s =>
      apply ih
      rw [lock_record]
      exact ha.resume s.actor _

inductive Turn where
  | serve (actor : Actor) (r : Request)
  | pass (seconds : Float)

def turn (t : TimedLock) : Turn → TimedLock
  | .serve actor r => ((t.serve actor r).map fun answer => answer.2.1).getD t
  | .pass seconds => (t.pass seconds).1

theorem attained_serve (ha : t.lock.Attained) (r : Request) :
    (t.turn (.serve a r)).lock.Attained := by
  rw [turn, serve.eq_def]
  by_cases hawake : t.lock.isAsleep a = true
  · rw [if_pos hawake]
    exact ha
  · rw [if_neg hawake]
    have hawake := Bool.eq_false_iff.mpr hawake
    cases r with
    | take m timeout => exact attained_settleWithin _ (attained_acquire ha hawake m timeout)
    | give m => exact attained_settleWithin _ (attained_release ha hawake m)

theorem attained_turn (ha : t.lock.Attained) (u : Turn) : (t.turn u).lock.Attained := by
  cases u with
  | serve a r => exact attained_serve ha r
  | pass seconds => exact attained_settleWithin _ (ha.next .stir)

/-- Whatever actors ask for and however time goes by, the lock is in a state of some session. -/
theorem attained_turns (turns : List Turn) : (turns.foldl turn free).lock.Attained := by
  have hall : ∀ t : TimedLock, t.lock.Attained → (turns.foldl turn t).lock.Attained := by
    induction turns with
    | nil => exact fun t ha => ha
    | cons u turns ih => exact fun t ha => ih _ (attained_turn ha u)
  exact hall free Lock.attained_free

end TimedLock

end Phrasebook
