import Phrasebook.Proofs.Lock.Standing

/-!
# What fails

An attempt to take a lock may be refused at once or after a while, and a lock that is not held
cannot be given back. Who fails in such a way makes no move but to join the queue and to quit it, so
that once it is over the standing is what the moves of the other actors alone have made of the
standing before.
-/

namespace Phrasebook.Lock

variable {l l' : Lock} {a b : Actor} {m n : Mode} {s : Sleeper} {e : Event} {es : List Event}
  {expired : Bool} {d : Option Deed}

def Waits (l : Lock) (a : Actor) (m : Mode) : Prop :=
  ∃ s ∈ l.sleepers, s.actor = a ∧ s.mode = m

theorem isAsleep_iff : l.isAsleep a = true ↔ ∃ m, Waits l a m := by
  simp only [isAsleep, List.any_eq_true, decide_eq_true_eq, Waits]
  constructor
  · rintro ⟨s, hs, ha⟩
    exact ⟨s.mode, s, hs, ha, rfl⟩
  · rintro ⟨m, s, hs, ha, -⟩
    exact ⟨s, hs, ha⟩

theorem waits_notifyAll : Waits l.notifyAll a m ↔ Waits l a m := by
  simp [Waits, notifyAll]

theorem waits_sleep : Waits (l.sleep b n) a m ↔ Waits l a m ∨ b = a ∧ n = m := by
  simp [Waits, sleep, or_and_right, exists_or]

theorem Queued.waits_erase (hq : Queued 0 l) (hs : s ∈ l.sleepers) :
    Waits { l with sleepers := l.sleepers.erase s } a m ↔ Waits l a m ∧ a ≠ s.actor := by
  constructor
  · rintro ⟨t, ht, rfl, rfl⟩
    exact ⟨⟨t, List.mem_of_mem_erase ht, rfl, rfl⟩, hq.erase_ne hs t ht⟩
  · rintro ⟨⟨t, ht, rfl, rfl⟩, hne⟩
    refine ⟨t, (List.mem_erase_of_ne ?_).mpr ht, rfl, rfl⟩
    rintro rfl
    exact hne rfl

theorem Queued.waits_mode (hq : Queued 0 l) (hs : s ∈ l.sleepers) (hw : Waits l s.actor m) :
    s.mode = m := by
  obtain ⟨t, ht, hactor, rfl⟩ := hw
  rw [List.inj_on_of_nodup_map hq.actors ht hs hactor]

theorem waits_handTo : Waits (l.handTo b n) a m ↔ Waits l a m := by
  cases n with
  | read => exact Iff.rfl
  | write => exact waits_notifyAll

theorem waits_giveUp : Waits (l.giveUp n) a m ↔ Waits l a m := by
  cases n with
  | read => exact Iff.rfl
  | write => exact waits_notifyAll

theorem waits_contend (hx : (l.contend a m expired).2 ≠ .asleep) :
    Waits (l.contend a m expired).1 b n ↔ Waits l b n := by
  rcases contend_cases l a m expired with ⟨-, heq⟩ | ⟨-, -, heq⟩ | ⟨-, -, heq⟩
  · rw [heq]
    exact waits_handTo
  · exact absurd (congrArg Prod.snd heq) hx
  · rw [heq]
    exact waits_giveUp

theorem contend_asleep (hx : (l.contend a m expired).2 = .asleep) :
    l.isBlocked m = true ∧ (l.contend a m expired).1 = l.sleep a m := by
  rcases contend_cases l a m expired with ⟨-, heq⟩ | ⟨hb, -, heq⟩ | ⟨-, -, heq⟩
  · rw [heq] at hx
    cases hx
  · exact ⟨hb, congrArg Prod.fst heq⟩
  · rw [heq] at hx
    cases hx

theorem acquire_eq_contend (hr : l.readers.get? a = none) (hw : l.writer ≠ some a) (m : Mode)
    (expired : Bool) : l.acquire a m expired =
      { l with waitingWriters := l.waitingWriters + inside m }.contend a m expired := by
  have hr := Bool.eq_false_iff.mp (contains_eq_false.mpr hr)
  cases m with
  | read => rw [acquire, acquireRead, if_neg hr, if_neg hw]; rfl
  | write => rw [acquire, acquireWrite, if_neg hr, if_neg hw]; rfl

theorem acquire_cases (l : Lock) (a : Actor) (m : Mode) (expired : Bool) :
    (m = .read ∧ l.readers.contains a = true ∧ l.acquire a m expired =
      ({ l with readers := l.readers.insert a (l.depth a + 1) }, .taken)) ∨
    (∃ f, l.acquire a m expired = (l, .refused f)) ∨
    (l.readers.get? a = none ∧ l.writer ≠ some a ∧ l.acquire a m expired =
      { l with waitingWriters := l.waitingWriters + inside m }.contend a m expired) := by
  by_cases hr : l.readers.contains a = true
  · cases m with
    | read => exact Or.inl ⟨rfl, hr, by rw [acquire, acquireRead, if_pos hr]⟩
    | write => exact Or.inr (Or.inl ⟨_, by rw [acquire, acquireWrite, if_pos hr]⟩)
  · by_cases hw : l.writer = some a
    · refine Or.inr (Or.inl ?_)
      cases m with
      | read => exact ⟨_, by rw [acquire, acquireRead, if_neg hr, if_pos hw]⟩
      | write => exact ⟨_, by rw [acquire, acquireWrite, if_neg hr, if_pos hw]⟩
    · have hnone := contains_eq_false.mp (Bool.eq_false_iff.mpr hr)
      exact Or.inr (Or.inr ⟨hnone, hw, acquire_eq_contend hnone hw m expired⟩)

theorem waits_acquire (hx : (l.acquire a m expired).2 = .asleep) :
    Waits (l.acquire a m expired).1 a m := by
  rcases acquire_cases l a m expired with ⟨-, -, heq⟩ | ⟨f, heq⟩ | ⟨-, -, heq⟩
  · rw [heq] at hx
    cases hx
  · rw [heq] at hx
    cases hx
  · rw [heq] at hx ⊢
    rw [(contend_asleep hx).2]
    exact waits_sleep.mpr (Or.inr ⟨rfl, rfl⟩)

theorem Contends.waits (hc : Contends l b n d l') (hw : Waits l a m) : Waits l' a m := by
  cases hc with
  | reads => exact hw
  | writes => exact waits_notifyAll.mpr hw
  | stopsReading => exact hw
  | stopsWriting => exact waits_notifyAll.mpr hw
  | sleeps => exact waits_sleep.mpr (Or.inl hw)

theorem Contends.waits_self (hc : Contends l a m d l') (hno : l.isAsleep a = false)
    (ha : l'.isAsleep a = true) : Waits l' a m := by
  have hnotify : l.notifyAll.isAsleep a = false := by
    rw [Bool.eq_false_iff, Ne, isAsleep_iff] at hno ⊢
    simpa only [waits_notifyAll] using hno
  cases hc with
  | reads => exact absurd (hno.symm.trans ha) Bool.false_ne_true
  | writes => exact absurd (hnotify.symm.trans ha) Bool.false_ne_true
  | stopsReading => exact absurd (hno.symm.trans ha) Bool.false_ne_true
  | stopsWriting => exact absurd (hnotify.symm.trans ha) Bool.false_ne_true
  | sleeps => exact waits_sleep.mpr (Or.inr ⟨rfl, rfl⟩)

theorem Queued.isAsleep_erase (hq : Queued 0 l) (hs : s ∈ l.sleepers) :
    { l with sleepers := l.sleepers.erase s }.isAsleep s.actor = false :=
  isAsleep_eq_false.mpr (hq.erase_ne hs)

theorem Waits.step (hw : Waits l a m) (hq : Queued 0 l) (hs : Step l d l')
    (ha : l'.isAsleep a = true) : Waits l' a m := by
  cases hs with
  | idle => exact hw
  | again => exact hw
  | enters _ _ hc => exact hc.waits hw
  | @wakes s _ _ hs hc =>
    by_cases hne : a = s.actor
    · subst hne
      obtain rfl := hq.waits_mode hs hw
      exact hc.waits_self (hq.isAsleep_erase hs) ha
    · exact hc.waits ((hq.waits_erase hs).mpr ⟨hw, hne⟩)
  | readsOn => exact hw
  | readsNoMore => exact hw
  | lastReads => exact waits_notifyAll.mpr hw
  | writesNoMore => exact waits_notifyAll.mpr hw
  | stirred => exact waits_notifyAll.mpr hw

theorem mem_queues {f : Actor → Move} {move : Move} (hmem : move ∈ queues a m f) :
    move = f a := by
  cases m with
  | read => exact absurd hmem List.not_mem_nil
  | write => exact List.mem_singleton.mp hmem

theorem actor_of_mem_entering {x : Attempt} {move : Move} (hmem : move ∈ entering a m x) :
    move.actor = a := by
  cases x with
  | taken => rw [List.mem_singleton.mp hmem, Move.actor]
  | asleep => rw [mem_queues hmem, Move.actor]
  | refused f => exact absurd hmem List.not_mem_nil

theorem actor_of_mem_waking {x : Attempt} {move : Move} (hmem : move ∈ waking a m x) :
    move.actor = a ∧ x ≠ .asleep := by
  cases x with
  | taken =>
    refine ⟨?_, by simp⟩
    rcases List.mem_append.mp hmem with hmem | hmem
    · rw [mem_queues hmem, Move.actor]
    · rw [List.mem_singleton.mp hmem, Move.actor]
  | asleep => exact absurd hmem List.not_mem_nil
  | refused f => exact ⟨by rw [mem_queues hmem, Move.actor], by simp⟩

theorem ne_of_mem_moves (hq : Queued 0 l) (ha : l.isAsleep a = true)
    (ha' : (l.next e).1.isAsleep a = true) {move : Move} (hmem : move ∈ l.moves e) :
    move.actor ≠ a := by
  cases e with
  | enter b m expired =>
    rw [moves] at hmem
    split at hmem
    · exact absurd hmem List.not_mem_nil
    · rename_i hb
      rw [actor_of_mem_entering hmem]
      rintro rfl
      exact hb ha
  | wake b expired =>
    rw [moves] at hmem
    rw [next] at ha'
    cases hf : l.sleepers.find? (·.actor = b) with
    | none =>
      rw [hf] at hmem
      exact absurd hmem List.not_mem_nil
    | some s =>
      have hs := List.mem_of_find?_eq_some hf
      obtain rfl : s.actor = b := by simpa using List.find?_some hf
      simp only [hf, resume, settled] at hmem ha'
      -- a sleeper that makes a move is awake afterwards
      obtain ⟨hactor, hx⟩ := actor_of_mem_waking hmem
      rw [hactor]
      rintro rfl
      have hno := hq.isAsleep_erase hs
      rw [Bool.eq_false_iff, Ne, isAsleep_iff] at hno
      rw [isAsleep_iff] at ha'
      simp only [waits_contend hx] at ha'
      exact hno ha'
  | leave b m =>
    rw [moves] at hmem
    split at hmem
    · exact absurd hmem List.not_mem_nil
    · rename_i hb
      have hactor : move.actor = b := by
        split at hmem
        · rw [List.mem_singleton.mp hmem, Move.actor]
        · exact absurd hmem List.not_mem_nil
      rw [hactor]
      rintro rfl
      exact hb ha
  | stir => exact absurd hmem List.not_mem_nil

theorem Queued.sleeps_through (hq : Queued 0 l) (hw : Waits l a m)
    (hall : ∀ pre, pre <+: es → (l.after pre).isAsleep a = true) :
    Waits (l.after es) a m ∧ ∀ move ∈ l.movesOf es, move.actor ≠ a := by
  induction es generalizing l with
  | nil => exact ⟨hw, fun _ hmem => absurd hmem List.not_mem_nil⟩
  | cons e es ih =>
    have ha : (l.next e).1.isAsleep a = true := hall [e] ⟨es, rfl⟩
    obtain ⟨hlast, hmoves⟩ := ih (hq.next e) (hw.step hq (step_next l e) ha) fun pre hpre =>
      hall (e :: pre) (List.cons_prefix_cons.mpr ⟨rfl, hpre⟩)
    refine ⟨hlast, fun move hmem => ?_⟩
    rcases List.mem_append.mp hmem with hmem | hmem
    · exact ne_of_mem_moves hq (hall [] List.nil_prefix) ha hmem
    · exact hmoves move hmem

/-- What comes to nothing for an actor, from its start to its end, with all that happens meanwhile:
an attempt that is refused at once, a release of a lock that is not held, or an attempt in which the
actor sleeps and is refused when it wakes. -/
inductive Fails (l : Lock) (a : Actor) : List Event → Prop where
  | refused {m expired f} (awake : l.isAsleep a = false)
      (fault : (l.acquire a m expired).2 = .refused f) : Fails l a [.enter a m expired]
  | notHeld {m f} (awake : l.isAsleep a = false) (fault : l.release a m = .error f) :
      Fails l a [.leave a m]
  | gaveUp {m start between stop f} (awake : l.isAsleep a = false)
      (begins : (l.acquire a m start).2 = .asleep)
      (sleeps : ∀ pre, pre <+: between →
        (l.after (.enter a m start :: pre)).isAsleep a = true)
      (fault : ((l.after (.enter a m start :: between)).resume a stop).2 = .refused f) :
      Fails l a (.enter a m start :: (between ++ [.wake a stop]))

/-- What fails for an actor changes the standing as the moves of the others alone do. -/
theorem Fails.standing (hf : Fails l a es) (hq : Queued 0 l) :
    (l.after es).standing =
      ((l.movesOf es).filter (·.actor ≠ a)).foldl Standing.after l.standing := by
  rw [standing_after hq]
  cases hf with
  | refused awake fault => simp [movesOf, moves, awake, fault, entering]
  | notHeld awake fault => simp [movesOf, moves, awake, fault]
  | @gaveUp m start between stop f awake begins sleeps fault =>
    have hnext : (l.next (.enter a m start)).1 = (l.acquire a m start).1 := by
      rw [next, if_neg (Bool.eq_false_iff.mp awake)]
      rfl
    have hq₁ : Queued 0 (l.acquire a m start).1 := hnext ▸ hq.next _
    have hafter : ∀ pre, l.after (.enter a m start :: pre) =
        (l.acquire a m start).1.after pre := fun pre =>
      congrArg (after · pre) hnext
    simp only [hafter] at sleeps fault
    obtain ⟨hlast, hothers⟩ := hq₁.sleeps_through (waits_acquire begins) sleeps
    -- the actor joins the queue when it falls asleep and quits it when it is refused
    have hfirst : l.moves (.enter a m start) = queues a m .join := by
      rw [moves, if_neg (Bool.eq_false_iff.mp awake), begins]
      rfl
    have hstop : ((l.acquire a m start).1.after between).moves (.wake a stop) =
        queues a m .quit := by
      obtain ⟨s, hs, hactor, hmode⟩ := hlast
      subst hactor
      rw [moves, (hq₁.after between).find_eq hs]
      dsimp only
      rw [fault, hmode]
      rfl
    have hall : l.movesOf (.enter a m start :: (between ++ [.wake a stop])) =
        queues a m .join ++ ((l.acquire a m start).1.movesOf between ++ queues a m .quit) := by
      rw [movesOf, hfirst, hnext, movesOf_append, movesOf, hstop, movesOf, List.append_nil]
    have hown : ∀ {f : Actor → Move}, (f a).actor = a →
        (queues a m f).filter (·.actor ≠ a) = [] := by
      intro f hfa
      rw [List.filter_eq_nil_iff]
      intro move hmem
      simp [mem_queues hmem, hfa]
    have hrest : ((l.acquire a m start).1.movesOf between).filter (·.actor ≠ a) =
        (l.acquire a m start).1.movesOf between :=
      List.filter_eq_self.mpr fun move hmem => decide_eq_true (hothers move hmem)
    rw [hall, List.filter_append, List.filter_append, hown rfl, hown rfl, hrest, List.nil_append,
      List.append_nil, List.foldl_append, List.foldl_append]
    cases m with
    | read => rfl
    | write => exact foldl_join_quit _ _ a

end Phrasebook.Lock
