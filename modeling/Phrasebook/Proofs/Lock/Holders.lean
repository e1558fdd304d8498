import Mathlib.Data.List.Induction
import Phrasebook.Proofs.Lock.Session

/-!
# Who holds a lock

A session is a history of what was taken and given back. The lock is the balance of that history:
each reader is recorded with the number of times it has yet to give the lock back, and the one
writer that has yet to do so is the recorded one. Between two events every writer that waits is
asleep, and the lock counts those writers.
-/

namespace Phrasebook.Lock

variable {h : List Deed} {l l' : Lock} {a : Actor} {m : Mode} {n k : Nat} {d : Option Deed}
  {s : Sleeper}

theorem isBlocked_read : l.isBlocked .read = false ↔ l.writer = none ∧ l.waitingWriters = 0 := by
  simp [isBlocked]

theorem isBlocked_write :
    l.isBlocked .write = false ↔ l.writer = none ∧ ∀ a, l.readers.get? a = none := by
  rw [← Table.size_eq_zero_iff, isBlocked, Bool.or_eq_false_iff, decide_eq_false_iff_not,
    Option.isSome_eq_false_iff, Option.isNone_iff_eq_none, Nat.not_lt, Nat.le_zero, and_comm]

theorem isAsleep_eq_false : l.isAsleep a = false ↔ ∀ s ∈ l.sleepers, s.actor ≠ a := by
  simp [isAsleep]

theorem contains_eq_false : l.readers.contains a = false ↔ l.readers.get? a = none := by
  simp [Table.contains]

/-- What the history says of the actors that hold the lock. -/
structure Balanced (h : List Deed) (l : Lock) : Prop where
  positive : ∀ {a n}, l.readers.get? a = some n → 1 ≤ n
  reads : ∀ a, h.count (.took a .read) = h.count (.gave a .read) + l.depth a
  writes : ∀ a, h.count (.took a .write) =
    h.count (.gave a .write) + if l.writer = some a then 1 else 0
  exclusive : ∀ {a}, l.writer = some a → ∀ b, l.readers.get? b = none

theorem balanced_free : Balanced [] free := by
  constructor
  · intro a n hn
    cases hn
  · intro a
    rfl
  · intro a
    rfl
  · intro a ha
    cases ha

theorem Balanced.unwritten (hb : Balanced h l) (hn : l.readers.get? a = some n) :
    l.writer = none := by
  cases hw : l.writer with
  | none => rfl
  | some b =>
    rw [hb.exclusive hw a] at hn
    cases hn

theorem Balanced.of_eq (hb : Balanced h l) (hr : l'.readers = l.readers)
    (hw : l'.writer = l.writer) : Balanced h l' := by
  obtain ⟨hpositive, hreads, hwrites, hexclusive⟩ := hb
  constructor
  · rw [hr]
    exact hpositive
  · rw [show l'.depth = l.depth by rw [funext_iff]; intro a; rw [depth, depth, hr]]
    exact hreads
  · rw [hw]
    exact hwrites
  · rw [hr, hw]
    exact hexclusive

theorem Balanced.reads_more (hb : Balanced h l) (hw : l.writer = none) (a : Actor) :
    Balanced (h ++ [.took a .read]) { l with readers := l.readers.insert a (l.depth a + 1) } := by
  constructor
  · intro b n hn
    rw [Table.get?_insert] at hn
    by_cases hab : a = b
    · rw [if_pos hab] at hn
      cases hn
      omega
    · rw [if_neg hab] at hn
      exact hb.positive hn
  · intro b
    have hreads := hb.reads b
    by_cases hab : a = b
    · subst hab
      simp [depth] at hreads ⊢
      omega
    · simpa [depth, hab] using hreads
  · intro b
    simpa using hb.writes b
  · intro b hb'
    rw [hw] at hb'
    cases hb'

theorem Balanced.reads_less (hb : Balanced h l) (hw : l.writer = none) {rs : Table Actor Nat}
    (hp : ∀ {b n}, rs.get? b = some n → 1 ≤ n)
    (hd : ∀ b, l.depth b = (rs.get? b).getD 0 + if a = b then 1 else 0) :
    Balanced (h ++ [.gave a .read]) { l with readers := rs } := by
  constructor
  · exact hp
  · intro b
    have hreads := hb.reads b
    rw [hd] at hreads
    simp only [List.count_append, List.count_singleton, beq_iff_eq, Deed.gave.injEq, and_true,
      reduceCtorEq, if_false, depth]
    omega
  · intro b
    simpa using hb.writes b
  · intro b hb'
    rw [hw] at hb'
    cases hb'

theorem Balanced.reads_out (hb : Balanced h l) (hn : l.readers.get? a = some n) (hle : n ≤ 1) :
    Balanced (h ++ [.gave a .read]) { l with readers := l.readers.erase a } := by
  have hpos := hb.positive hn
  apply hb.reads_less (hb.unwritten hn)
  · intro b k hk
    rw [Table.get?_erase] at hk
    by_cases hab : a = b
    · rw [if_pos hab] at hk
      cases hk
    · rw [if_neg hab] at hk
      exact hb.positive hk
  · intro b
    rw [Table.get?_erase]
    by_cases hab : a = b
    · subst hab
      simp only [depth, hn, Option.getD_some, if_true, Option.getD_none]
      omega
    · simp [depth, hab]

theorem Balanced.begins_writing (hb : Balanced h l) (hw : l.writer = none)
    (hr : ∀ b, l.readers.get? b = none) (a : Actor) :
    Balanced (h ++ [.took a .write]) { l with writer := some a } := by
  constructor
  · exact hb.positive
  · intro b
    have hreads := hb.reads b
    simpa [depth] using hreads
  · intro b
    have hwrites := hb.writes b
    rw [hw] at hwrites
    simpa [List.count_singleton] using hwrites
  · intro b _
    exact hr

theorem Balanced.stops_writing (hb : Balanced h l) (hw : l.writer = some a) :
    Balanced (h ++ [.gave a .write]) { l with writer := none } := by
  constructor
  · exact hb.positive
  · intro b
    have hreads := hb.reads b
    simpa [depth] using hreads
  · intro b
    have hwrites := hb.writes b
    rw [hw] at hwrites
    simpa [List.count_singleton] using hwrites
  · intro b hb'
    cases hb'

theorem Balanced.contends (hb : Balanced h l) (ha : l.readers.get? a = none)
    (hc : Contends l a m d l') : Balanced (h ++ d.toList) l' := by
  cases hc with
  | reads hfree =>
    have hmore := hb.reads_more (isBlocked_read.mp hfree).1 a
    rw [depth, ha] at hmore
    exact hmore
  | writes hfree =>
    obtain ⟨hw, hr⟩ := isBlocked_write.mp hfree
    exact (hb.begins_writing hw hr a).of_eq rfl rfl
  | stopsReading =>
    rw [Option.toList_none, List.append_nil]
    exact hb
  | stopsWriting =>
    rw [Option.toList_none, List.append_nil]
    exact hb.of_eq rfl rfl
  | sleeps =>
    rw [Option.toList_none, List.append_nil]
    exact hb.of_eq rfl rfl

theorem Balanced.step (hb : Balanced h l) (hq : ∀ s ∈ l.sleepers, l.readers.get? s.actor = none)
    (hs : Step l d l') : Balanced (h ++ d.toList) l' := by
  cases hs with
  | idle =>
    rw [Option.toList_none, List.append_nil]
    exact hb
  | @again a hr =>
    cases hn : l.readers.get? a with
    | none => simp [Table.contains, hn] at hr
    | some n => exact hb.reads_more (hb.unwritten hn) a
  | @enters a m _ _ _ hr hc =>
    have hb' : Balanced h { l with waitingWriters := l.waitingWriters + inside m } :=
      hb.of_eq rfl rfl
    exact hb'.contends (contains_eq_false.mp hr) hc
  | @wakes s _ _ hs hc =>
    have hb' : Balanced h { l with sleepers := l.sleepers.erase s } := hb.of_eq rfl rfl
    exact hb'.contends (hq s hs) hc
  | @readsOn a n hn hlt =>
    apply hb.reads_less (hb.unwritten hn)
    · intro b k hk
      rw [Table.get?_insert] at hk
      by_cases hab : a = b
      · rw [if_pos hab] at hk
        cases hk
        omega
      · rw [if_neg hab] at hk
        exact hb.positive hk
    · intro b
      rw [Table.get?_insert]
      by_cases hab : a = b
      · subst hab
        simp [depth, hn]
        omega
      · simp [depth, hab]
  | @readsNoMore a n hn hle _ => exact hb.reads_out hn hle
  | @lastReads a n hn hle => exact (hb.reads_out hn hle).of_eq rfl rfl
  | writesNoMore hw => exact (hb.stops_writing hw).of_eq rfl rfl
  | stirred =>
    rw [Option.toList_none, List.append_nil]
    exact hb.of_eq rfl rfl

/-- Who waits, while `k` writers are awake who want the lock. -/
structure Queued (k : Nat) (l : Lock) : Prop where
  waiting : l.waitingWriters = l.sleepers.countP (·.mode = .write) + k
  actors : (l.sleepers.map Sleeper.actor).Nodup
  apart : ∀ s ∈ l.sleepers, l.readers.get? s.actor = none

theorem queued_free : Queued 0 free := by
  constructor
  · rfl
  · exact List.nodup_nil
  · intro s hs
    cases hs

theorem Queued.notifyAll (hq : Queued k l) : Queued k l.notifyAll := by
  constructor
  · rw [Lock.notifyAll, List.countP_map]
    exact hq.waiting
  · rw [Lock.notifyAll, List.map_map]
    exact hq.actors
  · intro s hs
    obtain ⟨t, ht, rfl⟩ := List.mem_map.mp hs
    exact hq.apart t ht

theorem Queued.leaveQueue (hq : Queued 1 l) (w : Option Actor) : Queued 0 (l.leaveQueue w) := by
  apply Queued.notifyAll
  constructor
  · have hwaiting := hq.waiting
    simp only
    omega
  · exact hq.actors
  · exact hq.apart

theorem Queued.erase_reader (hq : Queued k l) (a : Actor) :
    Queued k { l with readers := l.readers.erase a } := by
  constructor
  · exact hq.waiting
  · exact hq.actors
  · intro s hs
    rw [Table.get?_erase, hq.apart s hs, ite_self]

theorem Queued.insert_reader (hq : Queued k l) {x : Nat} (hx : l.readers.get? a = some x)
    (n : Nat) : Queued k { l with readers := l.readers.insert a n } := by
  constructor
  · exact hq.waiting
  · exact hq.actors
  · intro s hs
    have hsleeper := hq.apart s hs
    rw [Table.get?_insert]
    by_cases hab : a = s.actor
    · subst hab
      rw [hsleeper] at hx
      cases hx
    · rw [if_neg hab]
      exact hsleeper

theorem Queued.erase (hq : Queued 0 l) (hs : s ∈ l.sleepers) :
    Queued (inside s.mode) { l with sleepers := l.sleepers.erase s } := by
  constructor
  · rw [hq.waiting, (List.perm_cons_erase hs).countP_eq, List.countP_cons]
    cases s.mode <;> rfl
  · exact hq.actors.sublist (List.erase_sublist.map _)
  · intro t ht
    exact hq.apart t (List.mem_of_mem_erase ht)

theorem Queued.erase_ne (hq : Queued k l) (hs : s ∈ l.sleepers) :
    ∀ t ∈ l.sleepers.erase s, t.actor ≠ s.actor := by
  intro t ht he
  have hnodup := ((List.perm_cons_erase hs).map Sleeper.actor).nodup_iff.mp hq.actors
  rw [List.map_cons, List.nodup_cons] at hnodup
  exact hnodup.1 (he ▸ List.mem_map_of_mem ht)

theorem Queued.contends (hq : Queued (inside m) l) (ha : l.readers.get? a = none)
    (hs : ∀ s ∈ l.sleepers, s.actor ≠ a) (hc : Contends l a m d l') : Queued 0 l' := by
  cases hc with
  | reads =>
    constructor
    · exact hq.waiting
    · exact hq.actors
    · intro s hmem
      rw [beginReading, Table.get?_insert, if_neg (hs s hmem).symm]
      exact hq.apart s hmem
  | writes => exact hq.leaveQueue _
  | stopsReading => exact hq
  | stopsWriting => exact hq.leaveQueue _
  | sleeps =>
    constructor
    · simp only [sleep, List.countP_append, List.countP_singleton]
      rw [hq.waiting]
      cases m <;> rfl
    · rw [sleep, List.map_append, List.nodup_append]
      refine ⟨hq.actors, by simp, ?_⟩
      intro b hb c hc
      obtain ⟨s, hmem, rfl⟩ := List.mem_map.mp hb
      obtain rfl : c = a := by simpa using hc
      exact hs s hmem
    · intro s hmem
      rcases List.mem_append.mp hmem with hmem | hmem
      · exact hq.apart s hmem
      · obtain rfl := List.mem_singleton.mp hmem
        exact ha

theorem Queued.step (hq : Queued 0 l) (hs : Step l d l') : Queued 0 l' := by
  cases hs with
  | idle => exact hq
  | @again a hr =>
    cases hx : l.readers.get? a with
    | none => simp [Table.contains, hx] at hr
    | some x => exact hq.insert_reader hx _
  | @enters a m _ _ ha hr hc =>
    have hq' : Queued (inside m) { l with waitingWriters := l.waitingWriters + inside m } := by
      constructor
      · have hwaiting := hq.waiting
        simp only
        omega
      · exact hq.actors
      · exact hq.apart
    exact hq'.contends (contains_eq_false.mp hr) (isAsleep_eq_false.mp ha) hc
  | @wakes s _ _ hs hc => exact (hq.erase hs).contends (hq.apart s hs) (hq.erase_ne hs) hc
  | readsOn hn => exact hq.insert_reader hn _
  | readsNoMore => exact hq.erase_reader _
  | lastReads => exact (hq.erase_reader _).notifyAll
  | writesNoMore => exact Queued.notifyAll ⟨hq.waiting, hq.actors, hq.apart⟩
  | stirred => exact hq.notifyAll

theorem queued_session (events : List Event) : Queued 0 (session events).1 := by
  induction events using List.reverseRecOn with
  | nil => exact queued_free
  | append_singleton events e ih =>
    rw [session_snoc]
    exact ih.step (step_next _ e)

theorem balanced_session (events : List Event) :
    Balanced (session events).2 (session events).1 := by
  induction events using List.reverseRecOn with
  | nil => exact balanced_free
  | append_singleton events e ih =>
    rw [session_snoc]
    exact ih.step (queued_session events).apart (step_next _ e)

theorem Contends.begins_reading (hc : Contends l a m d l') {b : Actor}
    (hd : d = some (.took b .read)) : b = a ∧ l.writer = none ∧ l.waitingWriters = 0 := by
  cases hc with
  | reads hfree =>
    cases hd
    exact ⟨rfl, isBlocked_read.mp hfree⟩
  | writes => cases hd
  | stopsReading => cases hd
  | stopsWriting => cases hd
  | sleeps => cases hd

theorem Step.begins_reading (hs : Step l d l') (hd : d = some (.took a .read))
    (ha : l.readers.get? a = none) : l.writer = none ∧ l.waitingWriters = 0 := by
  cases hs with
  | again hr =>
    cases hd
    rw [contains_eq_false.mpr ha] at hr
    cases hr
  | @enters b m _ _ _ _ hc =>
    obtain ⟨-, hw, hz⟩ := hc.begins_reading hd
    exact ⟨hw, Nat.eq_zero_of_add_eq_zero_right hz⟩
  | wakes _ hc => exact (hc.begins_reading hd).2
  | idle => cases hd
  | readsOn => cases hd
  | readsNoMore => cases hd
  | lastReads => cases hd
  | writesNoMore => cases hd
  | stirred => cases hd

/-- In every state that a session can reach, nobody reads while somebody writes; the actors that
have taken the lock to write and not given it back are the recorded writer alone; every recorded
reader has taken the lock to read that much oftener than it gave it back, and all other actors
equally often; as many writers are counted as sleep, each of them once; and nobody but a reader
takes the lock to read while somebody writes or waits to write. -/
theorem holders_recorded (events : List Event) :
    let l := (session events).1
    let h := (session events).2
    (l.writer.isSome → l.readers.size = 0) ∧
    (∀ a, h.count (.took a .write) =
      h.count (.gave a .write) + if l.writer = some a then 1 else 0) ∧
    (∀ a n, l.readers.get? a = some n →
      1 ≤ n ∧ h.count (.took a .read) = h.count (.gave a .read) + n) ∧
    (∀ a, l.readers.get? a = none → h.count (.took a .read) = h.count (.gave a .read)) ∧
    l.waitingWriters = (l.sleepers.filter (·.mode = .write)).length ∧
    (l.sleepers.map Sleeper.actor).Nodup ∧
    (∀ e a, (l.next e).2 = some (.took a .read) → l.readers.get? a = none →
      l.writer = none ∧ l.waitingWriters = 0) := by
  intro l h
  have hb : Balanced h l := balanced_session events
  have hq : Queued 0 l := queued_session events
  refine ⟨?_, hb.writes, ?_, ?_, ?_, hq.actors, ?_⟩
  · intro hw
    obtain ⟨a, ha⟩ := Option.isSome_iff_exists.mp hw
    exact Table.size_eq_zero_iff.mpr (hb.exclusive ha)
  · intro a n hn
    have hreads := hb.reads a
    rw [depth, hn] at hreads
    exact ⟨hb.positive hn, hreads⟩
  · intro a hn
    have hreads := hb.reads a
    rw [depth, hn] at hreads
    exact hreads
  · rw [← List.countP_eq_length_filter]
    exact hq.waiting
  · intro e a hd ha
    exact (step_next l e).begins_reading hd ha

/-- Two readings of one actor, a writer and a reader that wait, and a writer that gives up. -/
def crowded : List Event :=
  [.enter "a" .read false, .enter "b" .write false, .enter "a" .read false,
    .enter "c" .read false, .enter "d" .write false, .wake "d" true, .leave "a" .read]

def handedOver : List Event := crowded ++ [.leave "a" .read, .wake "b" false]

theorem holders_recorded_crowded :
    ((session crowded).1.readers.get? "a" = some 1 ∧
      (session crowded).2.count (.took "a" .read) = 2 ∧
      (session crowded).1.waitingWriters = 1) ∧
    ((session handedOver).1.writer.isSome ∧ (session handedOver).1.readers.size = 0 ∧
      (session handedOver).1.readers.get? "a" = none ∧
      (session handedOver).2.count (.took "a" .read) = 2) ∧
    (let l := (session (handedOver ++ [.leave "b" .write])).1;
      (l.next (.wake "c" false)).2 = some (.took "c" .read) ∧ l.readers.get? "c" = none ∧
        l.writer = none ∧ l.waitingWriters = 0) := by
  obtain ⟨-, -, hreads, -, hwaiting, -, -⟩ := holders_recorded crowded
  obtain ⟨hexclusive, -, -, hgone, -, -, -⟩ := holders_recorded handedOver
  obtain ⟨-, -, -, -, -, -, hbegins⟩ := holders_recorded (handedOver ++ [.leave "b" .write])
  have hreader : (session crowded).1.readers.get? "a" = some 1 := by decide
  have hwriter : (session handedOver).1.writer.isSome := by decide
  have hnone : (session handedOver).1.readers.get? "a" = none := by decide
  obtain ⟨-, hcount⟩ := hreads "a" 1 hreader
  refine ⟨⟨hreader, ?_, ?_⟩, ⟨hwriter, hexclusive hwriter, hnone, ?_⟩, ?_⟩
  · exact hcount.trans (by decide)
  · exact hwaiting.trans (by decide)
  · exact (hgone "a" hnone).trans (by decide)
  · intro l
    have htakes : (l.next (.wake "c" false)).2 = some (.took "c" .read) := by decide
    have hnew : l.readers.get? "c" = none := by decide
    exact ⟨htakes, hnew, hbegins _ _ htakes hnew⟩

end Phrasebook.Lock
