import Phrasebook.Proofs.Loading.Fate

/-!
# Queueing a waiter

A request for a lexicon that is not there puts one waiter at the end of one queue: that of the
current load of its tag, which is made if there is none. No other load is touched, and nobody is
told anything.
-/

namespace Phrasebook

namespace Store

variable {α σ ε : Type}

theorem load_append {s s' : Store α σ ε} {l : Load σ ε}
    (h : s'.loads = s.loads ++ [l]) (j : Nat) :
    s'.load j = if j = s.loads.length then l else s.load j := by
  unfold load
  rw [h]
  rcases Nat.lt_trichotomy j s.loads.length with hj | rfl | hj
  · simp [List.getElem?_append_left hj, Nat.ne_of_lt hj]
  · simp
  · have hlen : (s.loads ++ [l]).length ≤ j := by
      rw [List.length_append]
      exact hj
    rw [List.getElem?_eq_none hlen, List.getElem?_eq_none (Nat.le_of_lt hj),
      if_neg (Nat.ne_of_gt hj)]

def create (s : Store α σ ε) (tag : String) (w : Waiter σ ε) : Store α σ ε :=
  { s with
    loads := s.loads ++ [(Load.new tag).add w]
    pending := s.pending.insert tag s.loads.length }

/-- A waiter is queued on the load of a tag, which is made if there is none. -/
structure Enqueues (s : Store α σ ε) (tag : String) (w : Waiter σ ε) (id : Nat)
    (s' : Store α σ ε) : Prop where
  was : s.pending.get? tag = some id ∨ s.pending.get? tag = none ∧ id = s.loads.length
  pending : ∀ t, s'.pending.get? t = if t = tag then some id else s.pending.get? t
  length : ∀ j, j < s'.loads.length ↔ j < s.loads.length ∨ j = id
  tag : (s'.load id).tag = tag
  waiters : (s'.load id).waiters = (s.load id).waiters ++ [w]
  other : ∀ j, j ≠ id → s'.load j = s.load j

section Enqueues

variable {s s' : Store α σ ε} {tag : String} {w : Waiter σ ε} {id : Nat}

theorem enqueues_join (hs : s.Filed) (hp : s.pending.get? tag = some id) :
    s.Enqueues tag w id (s.addWaiter id w) := by
  obtain ⟨hl, ht⟩ := hs hp
  have hself : (s.addWaiter id w).load id = (s.load id).add w := load_modify_self _ hl
  constructor
  · exact Or.inl hp
  · intro t
    split
    · rename_i he
      exact he ▸ hp
    · rfl
  · intro j
    have hlen : (s.addWaiter id w).loads.length = s.loads.length := length_modify _ _ _
    omega
  · rw [hself]
    exact ht
  · rw [hself, Load.waiters_add]
  · intro j hj
    exact load_modify_ne _ hj

theorem enqueues_create (hp : s.pending.get? tag = none) :
    s.Enqueues tag w s.loads.length (s.create tag w) := by
  have hload : ∀ j, (s.create tag w).load j = _ := load_append rfl
  have hnew : (s.load s.loads.length).waiters = [] := by simp [load]
  constructor
  · exact Or.inr ⟨hp, rfl⟩
  · intro t
    simp [create, eq_comm]
  · intro j
    have hlen : (s.create tag w).loads.length = s.loads.length + 1 := by simp [create]
    omega
  · simp [hload]
  · simp [hload, hnew]
  · intro j hj
    simp [hload, hj]

theorem Enqueues.modify {f : Load σ ε → Load σ ε} (hq : s.Enqueues tag w id s')
    (hf : ∀ l, (f l).tag = l.tag ∧ (f l).waiters = l.waiters) :
    s.Enqueues tag w id (s'.modify id f) := by
  have hself : (s'.modify id f).load id = f (s'.load id) :=
    load_modify_self f ((hq.length id).mpr (Or.inr rfl))
  constructor
  · exact hq.was
  · exact hq.pending
  · intro j
    rw [length_modify]
    exact hq.length j
  · rw [hself, (hf _).1]
    exact hq.tag
  · rw [hself, (hf _).2]
    exact hq.waiters
  · intro j hj
    rw [load_modify_ne f hj]
    exact hq.other j hj

theorem Enqueues.tag_eq (hq : s.Enqueues tag w id s') (hs : s.Filed) {j : Nat}
    (hj : j < s.loads.length) : (s'.load j).tag = (s.load j).tag := by
  by_cases he : j = id
  · subst he
    rw [hq.tag]
    rcases hq.was with hp | ⟨-, hn⟩
    · exact (hs hp).2.symm
    · omega
  · rw [hq.other j he]

theorem Enqueues.current (hq : s.Enqueues tag w id s') : s'.isCurrent id := by
  rw [isCurrent_iff, hq.length, hq.tag, hq.pending]
  simp

theorem Enqueues.current_iff (hq : s.Enqueues tag w id s') (hs : s.Filed) {j : Nat}
    (hj : j < s.loads.length) : s'.isCurrent j ↔ s.isCurrent j := by
  rw [isCurrent_iff, isCurrent_iff, hq.length, hq.tag_eq hs hj, hq.pending]
  by_cases ht : (s.load j).tag = tag
  · rw [if_pos ht, ht]
    rcases hq.was with hp | ⟨hp, hn⟩
    · simp [hp, hj]
    · have hne : id ≠ j := by omega
      simp [hp, hne]
  · simp [ht, hj]

end Enqueues

end Store

structure Desk.Queues (d : Desk Success Failure) (tag : String) (w : Waiter Success Failure)
    (id : Nat) (d' : Desk Success Failure) : Prop where
  service : d'.service = d.service
  shelf : d'.shelf = d.shelf
  installed : d'.store.installed = d.store.installed
  absent : ¬ d.store.contains tag
  was : d.store.pending.get? tag = some id ∨
    d.store.pending.get? tag = none ∧ id = d.store.loads.length
  pending : ∀ t, d'.store.pending.get? t = if t = tag then some id else d.store.pending.get? t
  length : ∀ j, j < d'.store.loads.length ↔ j < d.store.loads.length ∨ j = id
  tag : (d'.store.load id).tag = tag
  waiters : (d'.store.load id).waiters = (d.store.load id).waiters ++ [w]
  standing : (d'.store.load id).standing = .waiting
  fetch : id < d.store.loads.length → (d'.store.load id).fetch = (d.store.load id).fetch
  started : id = d.store.loads.length → d.service.hasLoader →
    (d'.store.load id).fetch = .outstanding
  other : ∀ j, j ≠ id → d'.store.load j = d.store.load j

namespace Desk.Queues

variable {d d' : Desk Success Failure} {tag : String} {w : Waiter Success Failure} {id : Nat}

theorem enqueues (h : d.Queues tag w id d') : d.store.Enqueues tag w id d'.store :=
  ⟨h.was, h.pending, h.length, h.tag, h.waiters, h.other⟩

theorem current (h : d.Queues tag w id d') : d'.store.isCurrent id := h.enqueues.current

theorem tag_eq (h : d.Queues tag w id d') (hs : d.store.Sound) {j : Nat}
    (hj : j < d.store.loads.length) : (d'.store.load j).tag = (d.store.load j).tag :=
  h.enqueues.tag_eq hs.filed hj

theorem current_iff (h : d.Queues tag w id d') (hs : d.store.Sound) {j : Nat}
    (hj : j < d.store.loads.length) : d'.store.isCurrent j ↔ d.store.isCurrent j :=
  h.enqueues.current_iff hs.filed hj

theorem standing_eq (h : d.Queues tag w id d') (hs : d.store.Sound) {j : Nat}
    (hj : j < d.store.loads.length) :
    (d'.store.load j).standing = (d.store.load j).standing := by
  by_cases he : j = id
  · subst he
    rw [h.standing]
    rcases h.was with hp | ⟨-, he⟩
    · exact (hs.isCurrent_iff.mp (hs.isCurrent hp)).2.symm
    · exact absurd hj (he ▸ Nat.lt_irrefl _)
  · rw [h.other j he]

theorem length_le (h : d.Queues tag w id d') : d.store.loads.length ≤ d'.store.loads.length := by
  by_cases he : d'.store.loads.length < d.store.loads.length
  · exact absurd ((h.length _).mpr (Or.inl he)) (Nat.lt_irrefl _)
  · exact Nat.le_of_not_lt he

theorem fetch_eq (h : d.Queues tag w id d') {j : Nat} (hj : j < d.store.loads.length) :
    (d'.store.load j).fetch = (d.store.load j).fetch := by
  by_cases he : j = id
  · subst he
    exact h.fetch hj
  · rw [h.other j he]

theorem sound (h : d.Queues tag w id d') (hs : d.Sound) (hw : w.onSuccess.Awaits tag) :
    d'.Sound := by
  have hget : ∀ t, d'.store.get? t = d.store.get? t := fun t => by
    rw [Store.get?, Store.get?, h.installed]
  refine ⟨⟨?_, ?_, ?_⟩, ?_, ?_⟩
  · intro t j hp
    rw [h.pending] at hp
    split at hp
    · obtain rfl := Option.some.inj hp
      rename_i ht
      exact ⟨(h.length _).mpr (Or.inr rfl), ht ▸ h.tag⟩
    · obtain ⟨hj, ht⟩ := hs.store.pending_load hp
      exact ⟨(h.length _).mpr (Or.inl hj), (h.tag_eq hs.store hj).trans ht⟩
  · intro j hj
    rcases (h.length j).mp hj with hj | rfl
    · rw [h.standing_eq hs.store hj, hs.store.standing hj]
      have hc := h.current_iff hs.store hj
      rw [Store.isCurrent_iff, Store.isCurrent_iff, h.length] at hc
      simpa [hj] using hc.symm
    · rw [h.standing, h.tag, h.pending]
      simp
  · intro t ht
    have ht : d.store.contains t := by rwa [Store.contains, h.installed] at ht
    have hne : t ≠ tag := fun he => h.absent (he ▸ ht)
    rw [h.pending, if_neg hne]
    exact hs.store.apart ht
  · intro t place hp
    rw [h.shelf]
    exact hs.shelved (hget t ▸ hp)
  · intro j x hx
    by_cases he : j = id
    · subst he
      rw [h.waiters] at hx
      rcases List.mem_append.mp hx with hx | hx
      · rw [h.tag_eq hs.store (Store.lt_of_waiter hx)]
        exact hs.awaits hx
      · obtain rfl := List.mem_singleton.mp hx
        rwa [h.tag]
    · rw [h.other j he] at hx ⊢
      exact hs.awaits hx

end Desk.Queues

namespace Desk

variable {d : Desk Success Failure} {tag : String}

theorem queues_joined (hs : d.Sound) {id : Nat} (hp : d.store.pending.get? tag = some id)
    (w : Waiter Success Failure) :
    d.Queues tag w id (d.withStore (d.store.addWaiter id w)) := by
  have he := Store.enqueues_join (w := w) hs.store.filed hp
  have hid := (hs.store.pending_load hp).1
  have hself : (d.store.addWaiter id w).load id = (d.store.load id).add w :=
    Store.load_modify_self _ hid
  refine ⟨rfl, rfl, rfl, ?_, he.was, he.pending, he.length, he.tag, he.waiters, ?_, ?_, ?_,
    he.other⟩
  · intro ht
    rw [hs.store.apart ht] at hp
    contradiction
  · exact (congrArg Load.standing hself).trans
      (hs.store.isCurrent_iff.mp (hs.store.isCurrent hp)).2
  · intro _
    have hf := congrArg Load.fetch hself
    exact hf
  · exact fun he => absurd hid (he ▸ Nat.lt_irrefl _)

theorem load_start_self (d : Desk Success Failure) {id : Nat} (h : id < d.store.loads.length) :
    (d.start id).store.load id =
      { d.store.load id with
        timer := .armed
        fetch := if d.service.hasLoader then .outstanding else .unset } :=
  Store.load_modify_self _ h

theorem queues_created (ht : ¬ d.store.contains tag) (hp : d.store.pending.get? tag = none)
    (w : Waiter Success Failure) :
    d.Queues tag w d.store.loads.length
      ((d.withStore (d.store.create tag w)).start d.store.loads.length) := by
  have hcreate := Store.enqueues_create (w := w) hp
  have he := hcreate.modify (f := fun l =>
    { l with
      timer := .armed
      fetch := if d.service.hasLoader then .outstanding else .unset }) fun _ => ⟨rfl, rfl⟩
  have hstart := load_start_self (d.withStore (d.store.create tag w))
    ((hcreate.length _).mpr (Or.inr rfl))
  have hnew : (d.store.create tag w).load d.store.loads.length = _ :=
    (Store.load_append rfl _).trans (if_pos rfl)
  simp only [withStore, hnew] at hstart
  refine ⟨rfl, rfl, rfl, ht, he.was, he.pending, he.length, he.tag, he.waiters,
    congrArg Load.standing hstart, fun h => absurd h (Nat.lt_irrefl _), ?_, he.other⟩
  intro _ hl
  have hf := congrArg Load.fetch hstart
  simp only [hl, if_true] at hf
  exact hf

end Desk

namespace Coordinator

theorem ensure_cases {c : Coordinator} (hs : c.desk.Sound) (tag : String)
    (w : Waiter Success Failure) :
    (c.desk.store.contains tag ∧ faultOf (c.ensure tag w) = take announce c (.success w.onSuccess)) ∨
    ∃ id d, faultOf (c.ensure tag w) = ({ c with desk := d }, none) ∧
      c.desk.Queues tag w id d := by
  by_cases ht : c.desk.store.contains tag
  · refine Or.inl ⟨ht, ?_⟩
    rw [ensure, Store.register, if_pos ht, take]
    rcases succeed announce c w.onSuccess with ⟨c', _ | f⟩ <;> rfl
  · right
    cases hp : c.desk.store.pending.get? tag with
    | some id =>
      refine ⟨id, _, ?_, Desk.queues_joined hs hp w⟩
      simp only [ensure, Store.register, if_neg ht, hp, faultOf]
    | none =>
      refine ⟨_, _, ?_, Desk.queues_created ht hp w⟩
      simp only [ensure, Store.register, if_neg ht, hp, faultOf]
      rfl

end Coordinator

end Phrasebook
