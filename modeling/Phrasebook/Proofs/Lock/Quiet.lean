import Mathlib.Data.List.Infix
import Phrasebook.Proofs.Lock.Clock
import Phrasebook.Proofs.Lock.Failures

/-!
# Failures leave no trace

Every session has the outcome of a quiet one, in which nobody fails. The quiet session leaves out
every attempt that comes to nothing, and has a reader begin when the lock is its own, without the
wait before. Its lock has the same holders, and the same writers wait for it. So whatever can be
taken there can be taken after the failures as well, by those who ask for it and by those who have
waited for it since.
-/

namespace Phrasebook.Lock

variable {l l' o : Lock} {a b : Actor} {m n : Mode} {s : Sleeper} {e : Event}
  {events quiet : List Event} {expired : Bool} {h : List Deed} {keep : Actor → Prop}

/-- Sessions in which nobody fails: whoever begins an attempt takes the lock or begins to wait, and
whoever wakes takes the lock. -/
inductive Quiet : List Event → Prop
  | start : Quiet []
  | does {events : List Event} {e : Event} {d : Deed} (hquiet : Quiet events)
      (done : ((session events).1.next e).2 = some d) : Quiet (events ++ [e])
  | waits {events : List Event} {a : Actor} {m : Mode} (hquiet : Quiet events)
      (awake : (session events).1.isAsleep a = false)
      (begins : ((session events).1.acquire a m false).2 = .asleep) :
      Quiet (events ++ [.enter a m false])

/-- One lock has the same holders as another, and of those who wait for the other only the writers
that are kept. -/
structure Mirrors (keep : Actor → Prop) (l o : Lock) : Prop where
  readers : o.readers = l.readers
  writer : o.writer = l.writer
  waits : ∀ b m, Waits o b m ↔ m = .write ∧ keep b ∧ Waits l b m

theorem mirrors_free : Mirrors keep free free := by
  refine ⟨rfl, rfl, fun b m => ⟨?_, ?_⟩⟩
  · rintro ⟨s, hs, -⟩
    exact absurd hs List.not_mem_nil
  · rintro ⟨-, -, s, hs, -⟩
    exact absurd hs List.not_mem_nil

theorem Mirrors.of_eq (hm : Mirrors keep l o) (hr : l'.readers = l.readers)
    (hw : l'.writer = l.writer) (hs : ∀ b, Waits l' b .write ↔ Waits l b .write) :
    Mirrors keep l' o := by
  refine ⟨hm.readers.trans hr.symm, hm.writer.trans hw.symm, fun b m => ?_⟩
  rw [hm.waits]
  refine and_congr_right fun hwrite => and_congr_right fun _ => ?_
  rw [hwrite, hs]

theorem Mirrors.isAsleep (hm : Mirrors keep l o) (ha : l.isAsleep a = false) :
    o.isAsleep a = false := by
  rw [Bool.eq_false_iff, Ne, isAsleep_iff] at ha ⊢
  rintro ⟨m, hw⟩
  exact ha ⟨m, ((hm.waits a m).mp hw).2.2⟩

theorem Queued.waitingWriters_eq_zero (hq : Queued 0 l) :
    l.waitingWriters = 0 ↔ ∀ b, ¬ Waits l b .write := by
  rw [hq.waiting, Nat.add_zero, List.countP_eq_zero]
  constructor
  · rintro hall b ⟨s, hs, -, hm⟩
    exact hall s hs (decide_eq_true hm)
  · intro hnone s hs hm
    exact hnone s.actor ⟨s, hs, rfl, of_decide_eq_true hm⟩

theorem Queued.join (hq : Queued 0 l) (m : Mode) :
    Queued (inside m) { l with waitingWriters := l.waitingWriters + inside m } :=
  ⟨by rw [hq.waiting, Nat.add_zero], hq.actors, hq.apart⟩

theorem Queued.waits_again (hq : Queued 0 l) (hs : s ∈ l.sleepers) :
    Waits ({ l with sleepers := l.sleepers.erase s }.sleep s.actor s.mode) b n ↔ Waits l b n := by
  rw [waits_sleep, hq.waits_erase hs]
  constructor
  · rintro (⟨hw, -⟩ | ⟨rfl, rfl⟩)
    · exact hw
    · exact ⟨s, hs, rfl, rfl⟩
  · intro hw
    by_cases hb : b = s.actor
    · subst hb
      exact Or.inr ⟨rfl, hq.waits_mode hs hw⟩
    · exact Or.inl ⟨hw, hb⟩

theorem Mirrors.isBlocked_false (hm : Mirrors keep l o) (hl : Queued (inside m) l)
    (ho : Queued 0 o) (hb : l.isBlocked m = false) :
    { o with waitingWriters := o.waitingWriters + inside m }.isBlocked m = false := by
  cases m with
  | read =>
    obtain ⟨hw, hz⟩ := isBlocked_read.mp hb
    refine isBlocked_read.mpr ⟨hm.writer.trans hw, ho.waitingWriters_eq_zero.mpr ?_⟩
    intro b hwaits
    exact hl.waitingWriters_eq_zero.mp hz b ((hm.waits b .write).mp hwaits).2.2
  | write =>
    obtain ⟨hw, hr⟩ := isBlocked_write.mp hb
    exact isBlocked_write.mpr ⟨hm.writer.trans hw, fun b => by rw [hm.readers, hr b]⟩

theorem contend_open (hb : l.isBlocked m = false) (a : Actor) (expired : Bool) :
    l.contend a m expired = (l.handTo a m, .taken) := by
  rcases contend_cases l a m expired with ⟨-, heq⟩ | ⟨hb', -⟩ | ⟨hb', -⟩
  · exact heq
  · cases hb.symm.trans hb'
  · cases hb.symm.trans hb'

theorem contend_blocked (hb : l.isBlocked m = true) (a : Actor) :
    l.contend a m false = (l.sleep a m, .asleep) := by
  rcases contend_cases l a m false with ⟨hb', -⟩ | ⟨-, -, heq⟩ | ⟨-, hexpired, -⟩
  · cases hb.symm.trans hb'
  · exact heq
  · cases hexpired

theorem Mirrors.handTo (hm : Mirrors keep l o) (a : Actor) (m : Mode) :
    Mirrors keep (l.handTo a m) (o.handTo a m) := by
  refine ⟨?_, ?_, fun b n => ?_⟩
  · cases m with
    | read => exact congrArg (Table.insert · a 1) hm.readers
    | write => exact hm.readers
  · cases m with
    | read => exact hm.writer
    | write => rfl
  · rw [waits_handTo, waits_handTo, hm.waits]

theorem Mirrors.giveUp (hm : Mirrors keep l o) (m : Mode) : Mirrors keep (l.giveUp m) o := by
  refine hm.of_eq ?_ ?_ fun b => waits_giveUp
  · cases m <;> rfl
  · cases m <;> rfl

theorem next_enter (ha : l.isAsleep a = false) (m : Mode) (expired : Bool) :
    l.next (.enter a m expired) = settled a m (l.acquire a m expired) :=
  if_neg (Bool.eq_false_iff.mp ha)

theorem next_leave (ha : l.isAsleep a = false) (hr : l.release a m = .ok l') :
    l.next (.leave a m) = (l', some (.gave a m)) := by
  rw [next, if_neg (Bool.eq_false_iff.mp ha), hr]

/-- Whoever contends for an open lock takes its mirror by an attempt that begins just then. -/
theorem Mirrors.takes (hm : Mirrors keep l o) (hl : Queued (inside m) l) (ho : Queued 0 o)
    (ha : l.isAsleep a = false) (hr : l.readers.get? a = none) (hb : l.isBlocked m = false) :
    ∃ o', o.next (.enter a m false) = (o', some (.took a m)) ∧
      Mirrors keep (l.handTo a m) o' := by
  have hwriter : l.writer ≠ some a := by
    cases m with
    | read => simp [(isBlocked_read.mp hb).1]
    | write => simp [(isBlocked_write.mp hb).1]
  have hcounted : Mirrors keep l { o with waitingWriters := o.waitingWriters + inside m } :=
    ⟨hm.readers, hm.writer, hm.waits⟩
  refine ⟨_, ?_, hcounted.handTo a m⟩
  rw [next_enter (hm.isAsleep ha), acquire_eq_contend (hm.readers ▸ hr) (hm.writer ▸ hwriter),
    contend_open (hm.isBlocked_false hl ho hb)]
  rfl

theorem Mirrors.takes_again (hm : Mirrors keep l o) (ha : l.isAsleep a = false)
    (hr : l.readers.contains a = true) :
    ∃ o', o.next (.enter a .read false) = (o', some (.took a .read)) ∧
      Mirrors keep { l with readers := l.readers.insert a (l.depth a + 1) } o' := by
  refine ⟨{ o with readers := o.readers.insert a (o.depth a + 1) }, ?_, ?_, hm.writer, hm.waits⟩
  · rw [next_enter (hm.isAsleep ha), acquire, acquireRead, hm.readers, if_pos hr]
    rfl
  · rw [depth, depth, hm.readers]

theorem Mirrors.gives (hm : Mirrors keep l o) (ha : l.isAsleep a = false)
    (h : l.release a m = .ok l') :
    ∃ o', o.next (.leave a m) = (o', some (.gave a m)) ∧ Mirrors keep l' o' := by
  suffices hrelease : ∃ o', o.release a m = .ok o' ∧ Mirrors keep l' o' by
    obtain ⟨o', ho, hm'⟩ := hrelease
    exact ⟨o', next_leave (hm.isAsleep ha) ho, hm'⟩
  have hnotified : ∀ b n, Waits o.notifyAll b n ↔ n = .write ∧ keep b ∧ Waits l.notifyAll b n := by
    intro b n
    rw [waits_notifyAll, waits_notifyAll]
    exact hm.waits b n
  cases m with
  | read =>
    rw [release, releaseRead] at h
    rw [release, releaseRead, hm.readers]
    cases hn : l.readers.get? a with
    | none =>
      rw [hn] at h
      cases h
    | some n =>
      rw [hn] at h
      dsimp only at h ⊢
      split at h
      · obtain rfl := Except.ok.inj h
        rw [if_pos ‹_›]
        exact ⟨_, rfl, rfl, hm.writer, hm.waits⟩
      · obtain rfl := Except.ok.inj h
        rw [if_neg ‹_›]
        split
        · exact ⟨_, rfl, rfl, hm.writer, hnotified⟩
        · exact ⟨_, rfl, rfl, hm.writer, hm.waits⟩
  | write =>
    rw [release, releaseWrite] at h
    rw [release, releaseWrite, hm.writer]
    split at h
    · obtain rfl := Except.ok.inj h
      rw [if_pos ‹_›]
      exact ⟨_, rfl, hm.readers, rfl, hnotified⟩
    · cases h

theorem Mirrors.sleeps (hm : Mirrors keep l o) (hkeep : keep a) (hr : l.readers.get? a = none)
    (hw : l.writer ≠ some a) (hb : l.isBlocked .write = true) :
    (o.acquire a .write false).2 = .asleep ∧
      Mirrors keep (l.sleep a .write) (o.acquire a .write false).1 := by
  have hblocked : { o with waitingWriters := o.waitingWriters + inside .write }.isBlocked .write =
      true := by
    rw [← hb, isBlocked, isBlocked, hm.readers, hm.writer]
  have hcontend : o.acquire a .write false =
      ({ o with waitingWriters := o.waitingWriters + inside .write }.sleep a .write, .asleep) := by
    rw [acquire_eq_contend (hm.readers ▸ hr) (hm.writer ▸ hw), contend_blocked hblocked a]
  rw [hcontend]
  refine ⟨rfl, hm.readers, hm.writer, fun b n => ?_⟩
  rw [waits_sleep, waits_sleep, ← and_assoc, and_or_left, and_assoc]
  refine or_congr (hm.waits b n) ⟨?_, And.right⟩
  rintro ⟨rfl, rfl⟩
  exact ⟨⟨rfl, hkeep⟩, rfl, rfl⟩

theorem Mirrors.sleeps_apart (hm : Mirrors keep l o) (hapart : m = .write → ¬ keep a) :
    Mirrors keep (l.sleep a m) o := by
  refine ⟨hm.readers, hm.writer, fun b n => ?_⟩
  rw [hm.waits, waits_sleep]
  refine and_congr_right fun hwrite => and_congr_right fun hkeep => ⟨Or.inl, ?_⟩
  rintro (hw | ⟨rfl, rfl⟩)
  · exact hw
  · exact absurd hkeep (hapart hwrite)

/-- A quiet session has the history and mirrors the lock. Which writers it must keep depends on what
becomes of them later, so what follows is about any choice. -/
def Mirrored (keep : Actor → Prop) (l : Lock) (h : List Deed) : Prop :=
  ∃ quiet, Quiet quiet ∧ (session quiet).2 = h ∧ Mirrors keep l (session quiet).1

variable {keep' : Actor → Prop}

theorem Mirrored.left_out (hm : Mirrored keep l h)
    (hall : ∀ o, Mirrors keep l o → Mirrors keep' l' o) : Mirrored keep' l' h := by
  obtain ⟨quiet, hquiet, hh, hm⟩ := hm
  exact ⟨quiet, hquiet, hh, hall _ hm⟩

theorem Mirrored.does {d : Deed} (hm : Mirrored keep l h)
    (hnext : ∀ o, Queued 0 o → Mirrors keep l o →
      ∃ o', o.next e = (o', some d) ∧ Mirrors keep' l' o') :
    Mirrored keep' l' (h ++ [d]) := by
  obtain ⟨quiet, hquiet, hh, hm⟩ := hm
  obtain ⟨o', hstep, hm'⟩ := hnext _ (queued_session quiet) hm
  refine ⟨quiet ++ [e], hquiet.does (congrArg Prod.snd hstep), ?_, ?_⟩
  · rw [session_snoc, hstep, hh]
    rfl
  · rw [session_snoc, hstep]
    exact hm'

theorem Mirrored.waits (hm : Mirrored keep l h) (ha : l.isAsleep a = false)
    (hr : l.readers.get? a = none) (hw : l.writer ≠ some a) (hb : l.isBlocked .write = true)
    (hkeep : keep a) : Mirrored keep (l.sleep a .write) h := by
  obtain ⟨quiet, hquiet, hh, hm⟩ := hm
  obtain ⟨hasleep, hm'⟩ := hm.sleeps hkeep hr hw hb
  have ho := hm.isAsleep ha
  refine ⟨quiet ++ [.enter a .write false], hquiet.waits ho hasleep, ?_, ?_⟩
  · rw [session_snoc, next_enter ho, settled, hasleep, hh]
    exact List.append_nil h
  · rw [session_snoc, next_enter ho]
    exact hm'

theorem Mirrored.contends (hm : Mirrored keep l h) (hq : Queued (inside m) l)
    (ha : l.isAsleep a = false) (hr : l.readers.get? a = none)
    (hx : (l.contend a m expired).2 ≠ .asleep) :
    Mirrored keep (l.contend a m expired).1
      (h ++ (settled a m (l.contend a m expired)).2.toList) := by
  rcases contend_cases l a m expired with ⟨hb, heq⟩ | ⟨-, -, heq⟩ | ⟨-, -, heq⟩
  · rw [heq]
    exact hm.does fun o ho hm => hm.takes hq ho ha hr hb
  · exact absurd (congrArg Prod.snd heq) hx
  · rw [heq]
    simpa [settled] using hm.left_out fun o hm => hm.giveUp m

theorem Mirrored.enters (hm : Mirrored keep l h) (hq : Queued 0 l) (ha : l.isAsleep a = false)
    (m : Mode) (expired : Bool) :
    Mirrored keep (l.acquire a m expired).1
      (h ++ (settled a m (l.acquire a m expired)).2.toList) := by
  rcases acquire_cases l a m expired with ⟨rfl, hr, heq⟩ | ⟨f, heq⟩ | ⟨hr, hw, heq⟩
  · rw [heq]
    exact hm.does fun o _ hm => hm.takes_again ha hr
  · rw [heq]
    simpa [settled] using hm
  · rw [heq]
    have hjoined : Mirrored keep { l with waitingWriters := l.waitingWriters + inside m } h :=
      hm.left_out fun o hm => ⟨hm.readers, hm.writer, hm.waits⟩
    by_cases hx : ({ l with waitingWriters := l.waitingWriters + inside m }.contend a m
        expired).2 = .asleep
    · obtain ⟨hb, hsleeps⟩ := contend_asleep hx
      rw [settled, hx, hsleeps]
      simp only [reduceCtorEq, if_false, Option.toList_none, List.append_nil]
      by_cases hkeep : m = .write ∧ keep a
      · obtain ⟨rfl, hkeep⟩ := hkeep
        exact hjoined.waits ha hr hw hb hkeep
      · exact hjoined.left_out fun o hm => hm.sleeps_apart fun hwrite ha => hkeep ⟨hwrite, ha⟩
    · exact hjoined.contends (hq.join m) ha hr hx

theorem Mirrored.wakes (hm : ∀ keep, Mirrored keep l h) (hq : Queued 0 l) (hs : s ∈ l.sleepers)
    (expired : Bool) (keep : Actor → Prop) :
    Mirrored keep ({ l with sleepers := l.sleepers.erase s }.contend s.actor s.mode expired).1
      (h ++ (settled s.actor s.mode
        ({ l with sleepers := l.sleepers.erase s }.contend s.actor s.mode expired)).2.toList) := by
  by_cases hx : ({ l with sleepers := l.sleepers.erase s }.contend s.actor s.mode
      expired).2 = .asleep
  · -- nothing has changed but the order of the sleepers
    rw [settled, hx, (contend_asleep hx).2]
    simp only [reduceCtorEq, if_false, Option.toList_none, List.append_nil]
    exact (hm keep).left_out fun o hm => hm.of_eq rfl rfl fun b => hq.waits_again hs
  · -- the quiet session has not kept the sleeper
    have herased : Mirrored keep { l with sleepers := l.sleepers.erase s } h := by
      refine (hm fun b => keep b ∧ b ≠ s.actor).left_out fun o hm =>
        ⟨hm.readers, hm.writer, fun b n => ?_⟩
      rw [hm.waits, hq.waits_erase hs, and_assoc, and_comm (a := b ≠ s.actor)]
    exact herased.contends (hq.erase hs) (hq.isAsleep_erase hs) (hq.apart s hs) hx

theorem Mirrored.next (hm : ∀ keep, Mirrored keep l h) (hq : Queued 0 l) (e : Event)
    (keep : Actor → Prop) : Mirrored keep (l.next e).1 (h ++ (l.next e).2.toList) := by
  have hidle : Mirrored keep l (h ++ (none : Option Deed).toList) := by
    simpa using hm keep
  cases e with
  | enter a m expired =>
    by_cases ha : l.isAsleep a = true
    · rw [Lock.next, if_pos ha]
      exact hidle
    · have ha := Bool.eq_false_iff.mpr ha
      rw [next_enter ha]
      exact (hm keep).enters hq ha m expired
  | wake a expired =>
    rw [Lock.next]
    cases hf : l.sleepers.find? (·.actor = a) with
    | none => exact hidle
    | some s =>
      have hs := List.mem_of_find?_eq_some hf
      obtain rfl : s.actor = a := by simpa using List.find?_some hf
      simp only [resume, hf]
      exact Mirrored.wakes hm hq hs expired keep
  | leave a m =>
    by_cases ha : l.isAsleep a = true
    · rw [Lock.next, if_pos ha]
      exact hidle
    · have ha := Bool.eq_false_iff.mpr ha
      cases hr : l.release a m with
      | ok l' =>
        rw [next_leave ha hr]
        exact (hm keep).does fun o _ hm => hm.gives ha hr
      | error f =>
        rw [Lock.next, if_neg (Bool.eq_false_iff.mp ha), hr]
        exact hidle
  | stir =>
    refine Mirrored.left_out hidle fun o hm => hm.of_eq rfl rfl fun b => waits_notifyAll

/-- Every session has the history of a quiet one, whichever writers are kept. -/
theorem mirrored_session (events : List Event) (keep : Actor → Prop) :
    Mirrored keep (session events).1 (session events).2 := by
  induction events using List.reverseRecOn generalizing keep with
  | nil => exact ⟨[], .start, rfl, mirrors_free⟩
  | append_singleton events e ih =>
    rw [session_snoc]
    exact Mirrored.next ih (queued_session events) e keep

def writersAsleep (l : Lock) : List Actor := (l.sleepers.filter (·.mode = .write)).map Sleeper.actor

theorem mem_writersAsleep : a ∈ l.writersAsleep ↔ Waits l a .write := by
  simp only [writersAsleep, List.mem_map, List.mem_filter, decide_eq_true_eq, Waits]
  exact exists_congr fun s => by rw [and_assoc, and_comm (a := s.mode = .write)]

theorem Queued.waitingWriters_eq (hq : Queued 0 l) :
    l.waitingWriters = l.writersAsleep.length := by
  rw [hq.waiting, writersAsleep, List.length_map, List.countP_eq_length_filter, Nat.add_zero]

theorem Queued.nodup_writersAsleep (hq : Queued 0 l) : l.writersAsleep.Nodup :=
  hq.actors.sublist (List.filter_sublist.map _)

theorem Mirrors.standing_eq (hm : Mirrors (fun _ => True) l o) (hl : Queued 0 l)
    (ho : Queued 0 o) : o.standing = l.standing := by
  have hperm : o.writersAsleep.Perm l.writersAsleep := by
    rw [List.perm_ext_iff_of_nodup ho.nodup_writersAsleep hl.nodup_writersAsleep]
    intro a
    rw [mem_writersAsleep, mem_writersAsleep, hm.waits]
    simp
  refine Standing.ext (funext fun a => ?_) hm.writer ?_
  · exact congrArg (fun rs : Table Actor Nat => (rs.get? a).getD 0) hm.readers
  · change (o.waitingWriters : Int) = l.waitingWriters
    rw [ho.waitingWriters_eq, hl.waitingWriters_eq, hperm.length_eq]

/-- Every session has the outcome of one in which nobody fails. -/
theorem exists_quiet (events : List Event) : ∃ quiet, Quiet quiet ∧
    (session quiet).2 = (session events).2 ∧
    (session quiet).1.standing = (session events).1.standing := by
  obtain ⟨quiet, hquiet, hh, hm⟩ := mirrored_session events fun _ => True
  exact ⟨quiet, hquiet, hh, hm.standing_eq (queued_session events) (queued_session quiet)⟩

theorem standing_acquire_refused {f : Fault} (hf : (l.acquire a m expired).2 = .refused f) :
    (l.acquire a m expired).1.standing = l.standing := by
  cases m with
  | read =>
    refine (standing_acquireRead l a expired).trans ?_
    rw [show (l.acquireRead a expired).2 = .refused f from hf]
    rfl
  | write =>
    refine (standing_acquireWrite l a expired).trans ?_
    rw [show (l.acquireWrite a expired).2 = .refused f from hf]
    rfl

end Phrasebook.Lock

namespace Phrasebook.TimedLock

open Lock

variable {t : TimedLock} {a : Actor} {m : Mode} {timeout : Option Float} {f : Fault}

theorem snd_record (t : TimedLock) (a : Actor) (r : Lock × Attempt) : (t.record a r).2 = r.2 := by
  obtain ⟨l, attempt⟩ := r
  cases attempt with
  | taken => rfl
  | asleep => rfl
  | refused f => rfl

theorem standing_acquire_refused (hf : (t.acquire a m timeout).2 = .refused f) :
    (t.acquire a m timeout).1.lock.standing = t.lock.standing := by
  unfold acquire at hf ⊢
  cases timeout with
  | none =>
    dsimp only at hf ⊢
    rw [snd_record] at hf
    rw [lock_record]
    exact Lock.standing_acquire_refused hf
  | some seconds =>
    dsimp only at hf ⊢
    split at hf
    · rw [if_pos ‹_›]
    · rw [snd_record] at hf
      rw [if_neg ‹_›, lock_record]
      exact Lock.standing_acquire_refused hf

end Phrasebook.TimedLock

namespace Phrasebook.Lock

/-- Let something fail for an actor, from its start to its end, in whatever state a session has
reached and whatever the others do meanwhile. The standing afterwards is what the moves of the
others alone make of the standing before. Some session in which nobody fails has the same history
and the same standing; whoever begins an attempt is answered there and here alike, and whoever waits
here for what is open there has been notified and takes the lock when it wakes. An attempt that is
refused at once, for the time it would wait or for another reason, leaves the standing as it is, and
an attempt with a negative time to wait leaves the lock as it is. -/
theorem failures_leave_no_trace (before : List Event) (a : Actor) (es : List Event)
    (hf : Fails (session before).1 a es) :
    let l := (session before).1
    let l' := (session (before ++ es)).1
    l'.standing = ((l.movesOf es).filter (·.actor ≠ a)).foldl Standing.after l.standing ∧
    (∃ quiet, Quiet quiet ∧ (session quiet).2 = (session (before ++ es)).2 ∧
      (session quiet).1.standing = l'.standing ∧
      (∀ b m expired,
        ((session quiet).1.acquire b m expired).2 = (l'.acquire b m expired).2) ∧
      ∀ s ∈ l'.sleepers, (session quiet).1.isBlocked s.mode = false → s.notified = true ∧
        ∀ expired, (l'.next (.wake s.actor expired)).2 = some (.took s.actor s.mode)) ∧
    (∀ (t : TimedLock) b m timeout f, (t.acquire b m timeout).2 = .refused f →
      (t.acquire b m timeout).1.lock.standing = t.lock.standing) ∧
    ∀ (t : TimedLock) b m seconds, seconds < 0.0 → t.acquire b m (some seconds) =
      (t, .refused (.negativeTimeout (Number.floatText seconds))) := by
  intro l l'
  refine ⟨?_, ?_, fun t b m timeout f => TimedLock.standing_acquire_refused, ?_⟩
  · rw [show l' = l.after es from session_append before es]
    exact hf.standing (queued_session before)
  · obtain ⟨quiet, hquiet, hh, hstanding⟩ := exists_quiet (before ++ es)
    have hbo := balanced_session quiet
    have hbl := balanced_session (before ++ es)
    refine ⟨quiet, hquiet, hh, hstanding, acquire_of_standing hbo hbl hstanding,
      fun s hs hopen => ?_⟩
    have hb : l'.isBlocked s.mode = false := by
      rw [← isBlocked_of_standing hbo hbl hstanding, hopen]
    refine ⟨?_, (queued_session (before ++ es)).wake_takes hs hb⟩
    cases hn : s.notified with
    | true => rfl
    | false =>
      rw [undisturbed_session (before ++ es) s hs hn] at hb
      cases hb
  · intro t b m seconds hneg
    rw [TimedLock.acquire]
    exact if_pos hneg

/-- A writer waits for a reader and gives up. Meanwhile the reader reads again, and another one
falls asleep. -/
def givenUp : List Event :=
  .enter "b" .write false ::
    ([.enter "a" .read false, .enter "c" .read false] ++ [.wake "b" true])

theorem failures_leave_no_trace_givenUp :
    let l := (session [.enter "a" .read false]).1
    let l' := (session ([.enter "a" .read false] ++ givenUp)).1
    let t := (TimedLock.free.acquire "a" .read none).1
    Fails l "b" givenUp ∧ l'.standing = l.standing.after (.take "a" .read) ∧
    (∃ quiet, Quiet quiet ∧ (session quiet).1.standing = l'.standing ∧
      ((session quiet).1.acquire "d" .read false).2 = .taken ∧
      (l'.acquire "d" .read false).2 = .taken ∧
      (session quiet).1.isBlocked .read = false ∧
      (l'.next (.wake "c" false)).2 = some (.took "c" .read)) ∧
    (t.acquire "a" .write none).2 = .refused .writeWhileReading ∧
    (t.acquire "a" .write none).1.lock.standing = t.lock.standing ∧
    (-1.0 : Float) < 0.0 ∧ t.acquire "b" .write (some (-1.0)) =
      (t, .refused (.negativeTimeout (Number.floatText (-1.0)))) := by
  intro l l' t
  have hsleeps : ∀ pre ∈ [Event.enter "a" .read false, .enter "c" .read false].inits,
      (l.after (.enter "b" .write false :: pre)).isAsleep "b" = true := by decide
  have hrefusal : ((l.after [.enter "b" .write false, .enter "a" .read false,
      .enter "c" .read false]).resume "b" true).2 = .refused (.timedOut .write) := by decide
  have hf : Fails l "b" givenUp := by
    rw [givenUp]
    exact .gaveUp (by decide) (by decide)
      (fun pre hpre => hsleeps pre ((List.mem_inits _ _).mpr hpre)) hrefusal
  obtain ⟨hstanding, ⟨quiet, hquiet, -, hsame, hattempt, hwaiting⟩, hrefused, hnegative⟩ :=
    failures_leave_no_trace [.enter "a" .read false] "b" givenUp hf
  have hopen : (session quiet).1.isBlocked .read = false :=
    (isBlocked_of_standing (balanced_session quiet) (balanced_session _) hsame .read).trans
      (by decide)
  have htaken : (l'.acquire "d" .read false).2 = .taken := by decide
  have hupgrade : (t.acquire "a" .write none).2 = .refused .writeWhileReading := by decide
  have hneg : (-1.0 : Float) < 0.0 := by decide
  refine ⟨hf, hstanding, ⟨quiet, hquiet, hsame, (hattempt "d" .read false).trans htaken, htaken,
    hopen, ?_⟩, hupgrade, hrefused t "a" .write none _ hupgrade, hneg,
    hnegative t "b" .write _ hneg⟩
  exact (hwaiting ⟨"c", .read, true⟩ (by decide) hopen).2 false

end Phrasebook.Lock
