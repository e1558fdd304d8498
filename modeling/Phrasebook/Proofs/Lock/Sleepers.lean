import Mathlib.Data.List.Nodup
import Phrasebook.Proofs.Lock.Holders

/-!
# Who sleeps

No wake-up is lost: a sleeper that has not been notified since it fell asleep could not take the
lock if it woke. Whatever opens the lock to some sleeper notifies all of them, also when a writer
stops waiting without having had the lock. So while nobody holds the lock and somebody waits, one of
the sleepers has been notified and takes the lock when it wakes.
-/

namespace Phrasebook.Lock

variable {l l' : Lock} {a : Actor} {m : Mode} {k : Nat} {d : Option Deed} {s : Sleeper}

/-- Who was not notified has nothing to wake up for. -/
def Undisturbed (l : Lock) : Prop :=
  ∀ s ∈ l.sleepers, s.notified = false → l.isBlocked s.mode = true

theorem undisturbed_notifyAll (l : Lock) : Undisturbed l.notifyAll := by
  intro s hs hn
  obtain ⟨t, -, rfl⟩ := List.mem_map.mp hs
  cases hn

theorem Undisturbed.mono (hu : Undisturbed l) (hs : ∀ s ∈ l'.sleepers, s ∈ l.sleepers)
    (hb : ∀ m, l.isBlocked m = true → l'.isBlocked m = true) : Undisturbed l' := by
  intro s hmem hn
  exact hb s.mode (hu s (hs s hmem) hn)

theorem isBlocked_readers {rs : Table Actor Nat} (hr : 0 < rs.size) (m : Mode)
    (hb : l.isBlocked m = true) : { l with readers := rs }.isBlocked m = true := by
  cases m with
  | read => exact hb
  | write => simp [isBlocked, hr]

theorem size_insert_pos (rs : Table Actor Nat) (a : Actor) (n : Nat) :
    0 < (rs.insert a n).size := by
  apply Nat.pos_of_ne_zero
  intro hz
  have hnone := Table.size_eq_zero_iff.mp hz a
  simp at hnone

theorem Undisturbed.insert_reader (hu : Undisturbed l) (a : Actor) (n : Nat) :
    Undisturbed { l with readers := l.readers.insert a n } := by
  apply hu.mono
  · intro s hs
    exact hs
  · exact isBlocked_readers (size_insert_pos _ _ _)

theorem Undisturbed.contends (hu : Undisturbed l) (hc : Contends l a m d l') : Undisturbed l' := by
  cases hc with
  | reads => exact hu.insert_reader a 1
  | writes => exact undisturbed_notifyAll _
  | stopsReading => exact hu
  | stopsWriting => exact undisturbed_notifyAll _
  | sleeps hb =>
    intro s hs hn
    rcases List.mem_append.mp hs with hs | hs
    · exact hu s hs hn
    · obtain rfl := List.mem_singleton.mp hs
      exact hb

theorem Undisturbed.step (hu : Undisturbed l) (hs : Step l d l') : Undisturbed l' := by
  cases hs with
  | idle => exact hu
  | again => exact hu.insert_reader _ _
  | @enters a m _ _ _ _ hc =>
    have hu' : Undisturbed { l with waitingWriters := l.waitingWriters + inside m } := by
      apply hu.mono
      · intro s hs
        exact hs
      · intro m' hb
        cases m' with
        | read =>
          simp only [isBlocked, Bool.or_eq_true, decide_eq_true_eq] at hb ⊢
          rcases hb with hb | hb
          · exact Or.inl hb
          · exact Or.inr (by omega)
        | write => exact hb
    exact hu'.contends hc
  | @wakes s _ _ _ hc =>
    have hu' : Undisturbed { l with sleepers := l.sleepers.erase s } := by
      apply hu.mono
      · intro t ht
        exact List.mem_of_mem_erase ht
      · intro m hb
        exact hb
    exact hu'.contends hc
  | readsOn => exact hu.insert_reader _ _
  | readsNoMore _ _ hr =>
    apply hu.mono
    · intro s hs
      exact hs
    · exact isBlocked_readers hr
  | lastReads => exact undisturbed_notifyAll _
  | writesNoMore => exact undisturbed_notifyAll _
  | stirred => exact undisturbed_notifyAll _

theorem undisturbed_session (events : List Event) : Undisturbed (session events).1 := by
  induction events using List.reverseRecOn with
  | nil =>
    intro s hs
    cases hs
  | append_singleton events e ih =>
    rw [session_snoc]
    exact ih.step (step_next _ e)

theorem Queued.find_eq (hq : Queued k l) (hs : s ∈ l.sleepers) :
    l.sleepers.find? (·.actor = s.actor) = some s := by
  cases hf : l.sleepers.find? (·.actor = s.actor) with
  | none =>
    have hno := List.find?_eq_none.mp hf s hs
    simp at hno
  | some t =>
    have hactor : t.actor = s.actor := by simpa using List.find?_some hf
    have hmem := List.mem_of_find?_eq_some hf
    rw [List.inj_on_of_nodup_map hq.actors hmem hs hactor]

theorem contend_taken (hb : l.isBlocked m = false) (a : Actor) (expired : Bool) :
    (l.contend a m expired).2 = .taken := by
  unfold contend
  rw [hb]
  cases m with
  | read => rfl
  | write => rfl

theorem Queued.wake_takes (hq : Queued k l) (hs : s ∈ l.sleepers)
    (hb : l.isBlocked s.mode = false) (expired : Bool) :
    (l.next (.wake s.actor expired)).2 = some (.took s.actor s.mode) := by
  have hopen : { l with sleepers := l.sleepers.erase s }.isBlocked s.mode = false := hb
  have hcontend := contend_taken hopen s.actor expired
  simp only [next, resume, hq.find_eq hs, settled, hcontend, if_true]

/-- If nobody holds the lock and somebody waits, then the lock is open to one of those. -/
theorem Queued.exists_open (hq : Queued 0 l) (hne : l.sleepers ≠ []) (hw : l.writer = none)
    (hr : l.readers.size = 0) : ∃ s ∈ l.sleepers, l.isBlocked s.mode = false := by
  have hwrite : l.isBlocked .write = false :=
    isBlocked_write.mpr ⟨hw, Table.size_eq_zero_iff.mp hr⟩
  by_cases hz : l.waitingWriters = 0
  · -- only readers wait
    obtain ⟨s, hs⟩ := List.exists_mem_of_ne_nil _ hne
    refine ⟨s, hs, ?_⟩
    cases hm : s.mode with
    | read => exact isBlocked_read.mpr ⟨hw, hz⟩
    | write => exact hwrite
  · have hcount : 0 < l.sleepers.countP (·.mode = .write) := by
      have hwaiting := hq.waiting
      omega
    obtain ⟨s, hs, hm⟩ := List.countP_pos_iff.mp hcount
    refine ⟨s, hs, ?_⟩
    rw [of_decide_eq_true hm]
    exact hwrite

/-- In every state that a session can reach, a reader that sleeps and has not been notified faces an
active or a waiting writer, and a writer that sleeps and has not been notified faces a reader or an
active writer. If nobody holds the lock and somebody sleeps, then somebody who sleeps has been
notified and takes the lock when it wakes. -/
theorem wakeups_kept (events : List Event) :
    let l := (session events).1
    (∀ s ∈ l.sleepers, s.notified = false → s.mode = .read →
      l.writer.isSome ∨ 0 < l.waitingWriters) ∧
    (∀ s ∈ l.sleepers, s.notified = false → s.mode = .write →
      0 < l.readers.size ∨ l.writer.isSome) ∧
    (l.sleepers ≠ [] → l.writer = none → l.readers.size = 0 →
      ∃ s ∈ l.sleepers, s.notified = true ∧
        ∀ expired, (l.next (.wake s.actor expired)).2 = some (.took s.actor s.mode)) := by
  intro l
  have hu : Undisturbed l := undisturbed_session events
  have hq : Queued 0 l := queued_session events
  refine ⟨?_, ?_, ?_⟩
  · intro s hs hn hm
    have hb := hu s hs hn
    rw [hm] at hb
    simpa [isBlocked] using hb
  · intro s hs hn hm
    have hb := hu s hs hn
    rw [hm] at hb
    simpa [isBlocked] using hb
  · intro hne hw hr
    obtain ⟨s, hs, hb⟩ := hq.exists_open hne hw hr
    have hnotified : s.notified = true := by
      cases hn : s.notified with
      | true => rfl
      | false =>
        rw [hu s hs hn] at hb
        cases hb
    exact ⟨s, hs, hnotified, hq.wake_takes hs hb⟩

/-- A reader waits only because a writer does. -/
def deferred : List Event :=
  [.enter "a" .read false, .enter "b" .write false, .enter "c" .read false]

/-- The writer gives up, and then the first reader leaves. -/
def abandoned : List Event := deferred ++ [.wake "b" true, .leave "a" .read]

theorem wakeups_kept_abandoned :
    (∃ s ∈ (session deferred).1.sleepers, s = ⟨"c", .read, false⟩ ∧
      ((session deferred).1.writer.isSome ∨ 0 < (session deferred).1.waitingWriters)) ∧
    (∃ s ∈ (session deferred).1.sleepers, s = ⟨"b", .write, false⟩ ∧
      (0 < (session deferred).1.readers.size ∨ (session deferred).1.writer.isSome)) ∧
    (let l := (session abandoned).1;
      l.sleepers ≠ [] ∧ l.writer = none ∧ l.readers.size = 0 ∧
        ∃ s ∈ l.sleepers, s.notified = true ∧
          ∀ expired, (l.next (.wake s.actor expired)).2 = some (.took s.actor s.mode)) := by
  obtain ⟨hreader, hwriter, -⟩ := wakeups_kept deferred
  obtain ⟨-, -, hopen⟩ := wakeups_kept abandoned
  refine ⟨⟨⟨"c", .read, false⟩, ?_, rfl, ?_⟩, ⟨⟨"b", .write, false⟩, ?_, rfl, ?_⟩, ?_⟩
  · decide
  · exact hreader ⟨"c", .read, false⟩ (by decide) rfl rfl
  · decide
  · exact hwriter ⟨"b", .write, false⟩ (by decide) rfl rfl
  · have hne : (session abandoned).1.sleepers ≠ [] := by decide
    have hw : (session abandoned).1.writer = none := by decide
    have hr : (session abandoned).1.readers.size = 0 := by decide
    exact ⟨hne, hw, hr, hopen hne hw hr⟩

end Phrasebook.Lock
