import Phrasebook.Proofs.Loading.Queue

/-!
# Who owns a load

The operations of a store interleave in any order, and an operation may name any load that was ever
made. Whoever takes a load out of the pending table is handed the load, and nobody is handed it
again. Until then requests queue on it, and afterwards its waiters are final, so that they can be
told without holding the store.
-/

namespace Phrasebook

namespace Store

variable {α σ ε : Type}

/-- The operations that change a store, each of them in one step. -/
inductive Op (α σ ε : Type) where
  | register (tag : String) (w : Waiter σ ε)
  | install (tag : String) (x : α)
  | installIfPending (load : Nat) (tag : String) (x : α)
  | detach (load : Nat)

inductive Reply where
  | registered (r : Registered)
  | replaced (load : Option Nat)
  | settled (done : Bool)
  deriving DecidableEq, Repr

abbrev Entry (α σ ε : Type) := Op α σ ε × Reply

def perform (s : Store α σ ε) : Op α σ ε → Reply × Store α σ ε
  | .register tag w => Prod.map .registered id (s.register tag w)
  | .install tag x => Prod.map .replaced id (s.install tag x)
  | .installIfPending load tag x => Prod.map .settled id (s.installIfPending load tag x)
  | .detach load => Prod.map .settled id (s.detach load)

def history (s : Store α σ ε) : List (Op α σ ε) → List (Entry α σ ε)
  | [] => []
  | op :: ops => (op, (s.perform op).1) :: history (s.perform op).2 ops

def replay (s : Store α σ ε) (ops : List (Op α σ ε)) : Store α σ ε :=
  ops.foldl (fun s op => (s.perform op).2) s

def joined? (id : Nat) : Entry α σ ε → Option (Waiter σ ε)
  | (.register _ w, .registered r) => if r.load? = some id then some w else none
  | _ => none

def handsBack (id : Nat) : Entry α σ ε → Bool
  | (.install _ _, .replaced load) => load = some id
  | (.installIfPending load _ _, .settled done) => done && load = id
  | (.detach load, .settled done) => done && load = id
  | _ => false

/-- All that an operation can do to the loads. -/
inductive Effect (s : Store α σ ε) (e : Entry α σ ε) (s' : Store α σ ε) : Prop where
  | idle (loads : s'.loads = s.loads) (pending : ∀ t, s'.pending.get? t = s.pending.get? t)
      (joined : ∀ id, joined? id e = none) (kept : ∀ id, ¬ handsBack id e)
  | queued {tag w r id} (he : e = (.register tag w, .registered r)) (hr : r.load? = some id)
      (h : s.Enqueues tag w id s')
  | settled {id standing} (h : s.Settles id standing s') (joined : ∀ j, joined? j e = none)
      (handed : ∀ j, handsBack j e ↔ j = id)

section Operations

variable {s s' : Store α σ ε} {tag : String} {w : Waiter σ ε} {id : Nat} {e : Entry α σ ε}

theorem effect_nothing (hj : ∀ id, joined? id e = none) (hb : ∀ id, ¬ handsBack id e) :
    s.Effect e s := by
  apply Effect.idle
  · rfl
  · intro t
    rfl
  · exact hj
  · exact hb

theorem effect_register (hs : s.Filed) (tag : String) (w : Waiter σ ε) :
    s.Effect (.register tag w, (s.perform (.register tag w)).1)
      (s.perform (.register tag w)).2 := by
  by_cases ht : s.contains tag
  · have heq : s.register tag w = (.loaded, s) := if_pos ht
    simp only [perform, heq]
    apply effect_nothing
    · intro id
      rfl
    · intro id
      exact Bool.false_ne_true
  · cases hp : s.pending.get? tag with
    | some id =>
      have heq : s.register tag w = (.joined id, s.addWaiter id w) := by simp [register, ht, hp]
      simp only [perform, heq]
      exact .queued rfl rfl (enqueues_join hs hp)
    | none =>
      have heq : s.register tag w = (.created s.loads.length, s.create tag w) := by
        simp [register, ht, hp, create]
      simp only [perform, heq]
      exact .queued rfl rfl (enqueues_create hp)

theorem effect_install (hs : s.Filed) (tag : String) (x : α) :
    s.Effect (.install tag x, (s.perform (.install tag x)).1) (s.perform (.install tag x)).2 := by
  cases hp : s.pending.get? tag with
  | none =>
    have hanswer : (s.perform (.install tag x)).1 = .replaced none := by simp [perform, install, hp]
    rw [hanswer]
    apply Effect.idle
    · simp [perform, install, hp]
    · intro t
      simp only [perform, install, hp, Prod.map_snd, id_eq, Table.get?_erase]
      split
      · rename_i he
        exact he ▸ hp.symm
      · rfl
    · intro id
      rfl
    · intro id
      simp [handsBack]
  | some id =>
    obtain ⟨-, ht⟩ := hs hp
    have hset := settles_install (hs.isCurrent hp) x
    rw [ht] at hset
    have hanswer : (s.perform (.install tag x)).1 = .replaced (some id) := by
      simp [perform, install, hp]
    rw [hanswer]
    refine .settled hset ?_ ?_
    · intro j
      rfl
    · intro j
      simp [handsBack, eq_comm]

theorem effect_installIfPending (id : Nat) (tag : String) (x : α) :
    s.Effect (.installIfPending id tag x, (s.perform (.installIfPending id tag x)).1)
      (s.perform (.installIfPending id tag x)).2 := by
  by_cases hc : s.isCurrent id
  · have hanswer : (s.perform (.installIfPending id tag x)).1 = .settled true := by
      simp [perform, installIfPending, hc]
    rw [hanswer]
    refine .settled (settles_installIfPending hc tag x) ?_ ?_
    · intro j
      rfl
    · intro j
      simp [handsBack, eq_comm]
  · have heq : s.installIfPending id tag x = (false, s) := if_neg hc
    simp only [perform, heq]
    apply effect_nothing
    · intro j
      rfl
    · intro j
      simp [handsBack]

theorem effect_detach (id : Nat) :
    s.Effect (.detach id, (s.perform (.detach id)).1) (s.perform (.detach id)).2 := by
  by_cases hc : s.isCurrent id
  · have hanswer : (s.perform (.detach id)).1 = .settled true := by
      simp [perform, detach, hc]
    rw [hanswer]
    refine .settled (settles_detach hc) ?_ ?_
    · intro j
      rfl
    · intro j
      simp [handsBack, eq_comm]
  · have heq : s.detach id = (false, s) := if_neg hc
    simp only [perform, heq]
    apply effect_nothing
    · intro j
      rfl
    · intro j
      simp [handsBack]

theorem effect_perform (hs : s.Filed) (op : Op α σ ε) :
    s.Effect (op, (s.perform op).1) (s.perform op).2 := by
  cases op with
  | register tag w => exact effect_register hs tag w
  | install tag x => exact effect_install hs tag x
  | installIfPending id tag x => exact effect_installIfPending id tag x
  | detach id => exact effect_detach id

end Operations

/-- What a history says of the loads that were made in it. -/
structure Tallies (s : Store α σ ε) (h : List (Entry α σ ε)) : Prop where
  filed : s.Filed
  made : ∀ {tag w id}, (.register tag w, .registered (.created id)) ∈ h →
    id < s.loads.length ∧ (s.load id).tag = tag
  waiters : ∀ id, (s.load id).waiters = h.filterMap (joined? id)
  handed : ∀ id, h.countP (handsBack id) =
    if id < s.loads.length ∧ ¬ s.isCurrent id then 1 else 0

section Histories

variable {s s' : Store α σ ε} {tag : String} {w : Waiter σ ε} {id : Nat} {e : Entry α σ ε}
  {h : List (Entry α σ ε)}

theorem tallies_empty : Tallies (empty : Store α σ ε) [] := by
  constructor
  · intro t id hp
    contradiction
  · intro tag w id hm
    exact absurd hm List.not_mem_nil
  · intro id
    rfl
  · intro id
    simp [empty]

theorem joined?_queued {r : Registered} (hr : r.load? = some id) (j : Nat) :
    joined? j ((.register tag w, .registered r) : Entry α σ ε) =
      if j = id then some w else none := by
  simp [joined?, hr, eq_comm]

theorem Tallies.idle (ht : Tallies s h) (hloads : s'.loads = s.loads)
    (hpending : ∀ t, s'.pending.get? t = s.pending.get? t) (hj : ∀ id, joined? id e = none)
    (hb : ∀ id, ¬ handsBack id e) : Tallies s' (h ++ [e]) := by
  have hload : ∀ j, s'.load j = s.load j := by
    intro j
    rw [load, load, hloads]
  have hcurrent : ∀ j, s'.isCurrent j ↔ s.isCurrent j := by
    intro j
    rw [isCurrent_iff, isCurrent_iff, hload, hloads, hpending]
  constructor
  · intro t id hp
    rw [hpending] at hp
    rw [hloads, hload]
    exact ht.filed hp
  · intro tag w id hm
    rw [hloads, hload]
    rcases List.mem_append.mp hm with hm | hm
    · exact ht.made hm
    · obtain rfl := List.mem_singleton.mp hm
      have hnone := hj id
      rw [joined?_queued rfl] at hnone
      simp at hnone
  · intro id
    rw [hload, ht.waiters]
    simp [hj]
  · intro id
    rw [List.countP_append, ht.handed, hloads]
    simp [hb, hcurrent]

theorem Tallies.queued {r : Registered} (ht : Tallies s h) (hr : r.load? = some id)
    (hq : s.Enqueues tag w id s') : Tallies s' (h ++ [(.register tag w, .registered r)]) := by
  constructor
  · intro t j hp
    rw [hq.pending] at hp
    split at hp
    · rename_i he
      obtain rfl := Option.some.inj hp
      exact ⟨(hq.length _).mpr (Or.inr rfl), hq.tag.trans he.symm⟩
    · obtain ⟨hj, htag⟩ := ht.filed hp
      exact ⟨(hq.length _).mpr (Or.inl hj), (hq.tag_eq ht.filed hj).trans htag⟩
  · intro t v j hm
    rcases List.mem_append.mp hm with hm | hm
    · obtain ⟨hj, htag⟩ := ht.made hm
      exact ⟨(hq.length _).mpr (Or.inl hj), (hq.tag_eq ht.filed hj).trans htag⟩
    · obtain ⟨⟨rfl, rfl⟩, rfl⟩ : (t = tag ∧ v = w) ∧ .created j = r := by
        simpa using List.mem_singleton.mp hm
      obtain rfl := Option.some.inj hr
      exact ⟨(hq.length _).mpr (Or.inr rfl), hq.tag⟩
  · intro j
    rw [List.filterMap_append, ← ht.waiters]
    by_cases hj : j = id
    · subst hj
      simp [hq.waiters, joined?_queued hr]
    · simp [hq.other j hj, joined?_queued hr, hj]
  · intro j
    rw [List.countP_append, ht.handed]
    by_cases hlt : j < s.loads.length
    · simp [handsBack, hq.length, hlt, hq.current_iff ht.filed hlt]
    · by_cases hj : j = id
      · subst hj
        simp [handsBack, hlt, hq.current]
      · simp [handsBack, hq.length, hlt, hj]

theorem Tallies.settled {standing : Standing} (ht : Tallies s h) (hset : s.Settles id standing s')
    (hj : ∀ j, joined? j e = none) (hb : ∀ j, handsBack j e ↔ j = id) :
    Tallies s' (h ++ [e]) := by
  obtain ⟨hid, -⟩ := isCurrent_iff.mp hset.current
  have hsame : ∀ j, (s'.load j).tag = (s.load j).tag ∧
      (s'.load j).waiters = (s.load j).waiters := by
    intro j
    by_cases he : j = id
    · subst he
      exact ⟨hset.same.tag, hset.same.waiters⟩
    · rw [hset.other j he]
      exact ⟨rfl, rfl⟩
  constructor
  · intro t j hp
    rw [hset.get?] at hp
    split at hp
    · contradiction
    · rw [hset.length, (hsame j).1]
      exact ht.filed hp
  · intro t v j hm
    rw [hset.length, (hsame j).1]
    rcases List.mem_append.mp hm with hm | hm
    · exact ht.made hm
    · obtain rfl := List.mem_singleton.mp hm
      have hnone := hj j
      rw [joined?_queued rfl] at hnone
      simp at hnone
  · intro j
    rw [(hsame j).2, ht.waiters]
    simp [hj]
  · intro j
    rw [List.countP_append, ht.handed, hset.length]
    by_cases he : j = id
    · subst he
      have hone : handsBack j e = true := (hb j).mpr rfl
      simp [hone, hid, hset.current, hset.not_current]
    · have hzero : handsBack j e = false := by
        apply Bool.eq_false_iff.mpr
        intro hh
        exact he ((hb j).mp hh)
      simp [hzero, hset.current_other he]

theorem Tallies.step (ht : Tallies s h) (he : s.Effect e s') : Tallies s' (h ++ [e]) := by
  cases he with
  | idle loads pending joined kept => exact ht.idle loads pending joined kept
  | queued he hr hq =>
    subst he
    exact ht.queued hr hq
  | settled hset joined handed => exact ht.settled hset joined handed

theorem Tallies.replay (ht : Tallies s h) (ops : List (Op α σ ε)) :
    Tallies (s.replay ops) (h ++ s.history ops) := by
  induction ops generalizing s h with
  | nil =>
    rw [history, List.append_nil]
    exact ht
  | cons op ops ih =>
    have hnext := ih (ht.step (effect_perform ht.filed op))
    rw [List.append_assoc] at hnext
    exact hnext

theorem Effect.final (hs : s.Filed) (he : s.Effect e s') (hid : id < s.loads.length)
    (hc : ¬ s.isCurrent id) :
    s'.load id = s.load id ∧ id < s'.loads.length ∧ ¬ s'.isCurrent id := by
  cases he with
  | idle loads pending =>
    have hload : s'.load id = s.load id := by rw [load, load, loads]
    rw [isCurrent_iff] at hc ⊢
    rw [hload, loads, pending]
    exact ⟨rfl, hid, hc⟩
  | @queued tag w r j _ _ hq =>
    have hne : id ≠ j := by
      rintro rfl
      exact hc ((hq.current_iff hs hid).mp hq.current)
    refine ⟨hq.other id hne, (hq.length id).mpr (Or.inl hid), ?_⟩
    rw [hq.current_iff hs hid]
    exact hc
  | @settled j standing hset =>
    have hne : id ≠ j := by
      rintro rfl
      exact hc hset.current
    refine ⟨hset.other id hne, hset.length ▸ hid, ?_⟩
    rw [hset.current_other hne]
    exact hc

/-- A load that was handed back never changes again. -/
theorem final_replay (ht : Tallies s h) (hid : id < s.loads.length) (hc : ¬ s.isCurrent id)
    (ops : List (Op α σ ε)) :
    (s.replay ops).load id = s.load id ∧ ¬ (s.replay ops).isCurrent id := by
  induction ops generalizing s h with
  | nil => exact ⟨rfl, hc⟩
  | cons op ops ih =>
    have he := effect_perform ht.filed op
    obtain ⟨hload, hid', hc'⟩ := he.final ht.filed hid hc
    obtain ⟨hload', hc''⟩ := ih (ht.step he) hid' hc'
    exact ⟨hload'.trans hload, hc''⟩

end Histories

theorem lists_of_waiters {l : Load σ ε} {waiters : List (Waiter σ ε)} (hl : l.waiters = waiters) :
    l.onSuccess = waiters.map Waiter.onSuccess ∧ l.onError = waiters.filterMap Waiter.onError ∧
      (l.isUnobserved ↔ ∃ v ∈ waiters, v.onError = none) := by
  subst hl
  exact ⟨l.onSuccess_eq, l.onError_eq, by simp [l.isUnobserved_eq]⟩

/-- In any history of a store, every load that was made is handed back at most once. Until then it
is the load that is pending for its tag, and its waiters are those of the requests that made or
joined it, in their order. After that its waiters stay as they are, and whoever tries to settle it
is refused and changes nothing. -/
theorem single_winner (ops : List (Op α σ ε)) (tag : String) (w : Waiter σ ε) (id : Nat) :
    let s := (empty : Store α σ ε).replay ops
    let h := (empty : Store α σ ε).history ops
    let waiters := h.filterMap (joined? id)
    (.register tag w, .registered (.created id)) ∈ h →
      h.countP (handsBack id) ≤ 1 ∧
      (h.countP (handsBack id) = 0 → ∀ t, s.pending.get? t = some id ↔ t = tag) ∧
      (s.load id).onSuccess = waiters.map Waiter.onSuccess ∧
      (s.load id).onError = waiters.filterMap Waiter.onError ∧
      ((s.load id).isUnobserved ↔ ∃ v ∈ waiters, v.onError = none) ∧
      (h.countP (handsBack id) = 1 → ∀ more,
        let s' := s.replay more
        (s'.load id).onSuccess = (s.load id).onSuccess ∧
        (s'.load id).onError = (s.load id).onError ∧
        (s'.load id).isUnobserved = (s.load id).isUnobserved ∧
        (∀ t x, s'.installIfPending id t x = (false, s')) ∧ s'.detach id = (false, s')) := by
  intro s h waiters hmade
  have ht : Tallies s h := tallies_empty.replay ops
  obtain ⟨hid, htag⟩ := ht.made hmade
  obtain ⟨hsuccess, herror, hunobserved⟩ := lists_of_waiters (ht.waiters id)
  have hhanded := ht.handed id
  by_cases hc : s.isCurrent id
  · rw [if_neg fun hn => hn.2 hc] at hhanded
    obtain ⟨-, hp⟩ := isCurrent_iff.mp hc
    refine ⟨by omega, ?_, hsuccess, herror, hunobserved, by omega⟩
    intro _ t
    constructor
    · intro hpt
      exact (ht.filed hpt).2.symm.trans htag
    · rintro rfl
      exact htag ▸ hp
  · rw [if_pos ⟨hid, hc⟩] at hhanded
    refine ⟨by omega, by omega, hsuccess, herror, hunobserved, ?_⟩
    intro _ more s'
    obtain ⟨hload, hc'⟩ := final_replay ht hid hc more
    rw [hload]
    refine ⟨rfl, rfl, rfl, ?_, ?_⟩
    · intro t x
      exact if_neg hc'
    · exact if_neg hc'

def retried : List (Op Nat Nat Nat) :=
  [.register "en" ⟨1, some 2⟩, .register "en" ⟨3, none⟩, .detach 0, .register "en" ⟨5, some 6⟩,
    .installIfPending 0 "en" 7]

theorem single_winner_retried :
    let s := (empty : Store Nat Nat Nat).replay retried
    let h := (empty : Store Nat Nat Nat).history retried
    (.register "en" ⟨1, some 2⟩, .registered (.created 0)) ∈ h ∧
      h.countP (handsBack 0) = 1 ∧ (s.load 0).onSuccess = [1, 3] ∧ (s.load 0).onError = [2] ∧
      s.pending.get? "en" = some 1 ∧ s.detach 0 = (false, s) := by
  intro s h
  have hmade : (.register "en" ⟨1, some 2⟩, .registered (.created 0)) ∈ h := List.mem_cons_self
  have hone : h.countP (handsBack 0) = 1 := by decide
  obtain ⟨-, -, hsuccess, herror, -, hfinal⟩ := single_winner retried "en" ⟨1, some 2⟩ 0 hmade
  obtain ⟨-, -, -, -, hdetach⟩ := hfinal hone []
  refine ⟨hmade, hone, ?_, ?_, ?_, hdetach⟩
  · exact hsuccess.trans (by decide)
  · exact herror.trans (by decide)
  · decide

end Store

end Phrasebook
