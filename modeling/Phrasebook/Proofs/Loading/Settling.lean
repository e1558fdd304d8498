import Phrasebook.Loading.Coordinator

/-!
# Settling a load

A load is current while the pending table names it. Settling takes it out of that table for good,
takes down how it ended, and touches no other load. `Sound` is what every store satisfies between
two of its operations.
-/

namespace Phrasebook

namespace Table

variable {κ α : Type} [DecidableEq κ]

theorem mem_keys_of_get? {t : Table κ α} {k : κ} {x : α} (h : t.get? k = some x) : k ∈ t.keys := by
  rw [← contains_iff, contains, h]
  rfl

theorem size_erase_le (t : Table κ α) (k : κ) : (t.erase k).size ≤ t.size :=
  List.length_filter_le _ _

theorem size_erase_lt {t : Table κ α} {k : κ} {x : α} (h : t.get? k = some x) :
    (t.erase k).size < t.size := by
  obtain ⟨row, hm, rfl⟩ := List.mem_map.mp (mem_keys_of_get? h)
  exact List.length_filter_lt_length_iff_exists.mpr ⟨row, hm, by simp⟩

end Table

/-- What no later event changes in a load: who asked for which tag, and how it was settled. -/
structure Load.Later {σ ε : Type} (l l' : Load σ ε) : Prop where
  tag : l'.tag = l.tag
  waiters : l'.waiters = l.waiters
  fetch : l'.fetch = l.fetch
  standing : l.standing ≠ .waiting → l'.standing = l.standing

theorem Load.Later.refl {σ ε : Type} (l : Load σ ε) : Load.Later l l :=
  ⟨rfl, rfl, rfl, fun _ => rfl⟩

theorem Load.Later.trans {σ ε : Type} {l m n : Load σ ε} (h : Load.Later l m)
    (k : Load.Later m n) : Load.Later l n where
  tag := k.tag.trans h.tag
  waiters := k.waiters.trans h.waiters
  fetch := k.fetch.trans h.fetch
  standing hl := by
    have hm := h.standing hl
    exact (k.standing (hm ▸ hl)).trans hm

theorem Load.isUnobserved_of_mem {σ ε : Type} {l : Load σ ε} {w : Waiter σ ε}
    (hw : w ∈ l.waiters) (he : w.onError = none) : l.isUnobserved = true := by
  rw [l.isUnobserved_eq]
  exact List.any_eq_true.mpr ⟨w, hw, by rw [he]; rfl⟩

namespace Store

variable {α σ ε : Type}

/-- The load with a number; a number that was never given has no waiters. -/
def load (s : Store α σ ε) (id : Nat) : Load σ ε :=
  (s.loads[id]?).getD (.new "")

theorem lt_of_waiter {s : Store α σ ε} {id : Nat} {w : Waiter σ ε}
    (h : w ∈ (s.load id).waiters) : id < s.loads.length := by
  by_cases hl : id < s.loads.length
  · exact hl
  · rw [load, List.getElem?_eq_none (Nat.le_of_not_lt hl)] at h
    exact absurd h List.not_mem_nil

theorem isCurrent_iff {s : Store α σ ε} {id : Nat} :
    s.isCurrent id ↔ id < s.loads.length ∧ s.pending.get? (s.load id).tag = some id := by
  unfold isCurrent load
  by_cases h : id < s.loads.length
  · simp [h]
  · simp [h]

@[simp] theorem length_modify (s : Store α σ ε) (id : Nat) (f : Load σ ε → Load σ ε) :
    (s.modify id f).loads.length = s.loads.length := by
  simp [modify]

@[simp] theorem installed_modify (s : Store α σ ε) (id : Nat) (f : Load σ ε → Load σ ε) :
    (s.modify id f).installed = s.installed := rfl

theorem load_modify_self {s : Store α σ ε} {id : Nat} (f : Load σ ε → Load σ ε)
    (h : id < s.loads.length) : (s.modify id f).load id = f (s.load id) := by
  simp [load, modify, h]

theorem load_modify_ne {s : Store α σ ε} {id j : Nat} (f : Load σ ε → Load σ ε) (h : j ≠ id) :
    (s.modify id f).load j = s.load j := by
  simp [load, modify, Ne.symm h]

theorem load_modify_cases (s : Store α σ ε) (id : Nat) (f : Load σ ε → Load σ ε) (j : Nat) :
    (s.modify id f).load j = s.load j ∨ j = id ∧ (s.modify id f).load j = f (s.load j) := by
  by_cases he : j = id
  · subst he
    by_cases hj : j < s.loads.length
    · exact Or.inr ⟨rfl, load_modify_self f hj⟩
    · left
      have hge := Nat.le_of_not_lt hj
      rw [load, load, List.getElem?_eq_none hge,
        List.getElem?_eq_none (by rwa [length_modify])]
  · exact Or.inl (load_modify_ne f he)

theorem waiters_modify {f : Load σ ε → Load σ ε} (hf : ∀ l, (f l).waiters = l.waiters)
    (s : Store α σ ε) (id j : Nat) :
    ((s.modify id f).load j).waiters = (s.load j).waiters := by
  rcases load_modify_cases s id f j with h | ⟨-, h⟩
  · rw [h]
  · rw [h, hf]

def Filed (s : Store α σ ε) : Prop :=
  ∀ {t id}, s.pending.get? t = some id → id < s.loads.length ∧ (s.load id).tag = t

theorem Filed.isCurrent {s : Store α σ ε} (h : s.Filed) {t : String} {id : Nat}
    (hp : s.pending.get? t = some id) : s.isCurrent id := by
  obtain ⟨hl, ht⟩ := h hp
  apply isCurrent_iff.mpr
  rw [ht]
  exact ⟨hl, hp⟩

/-- What holds of a store between any two operations. -/
structure Sound (s : Store α σ ε) : Prop where
  pending_load : ∀ {t id}, s.pending.get? t = some id → id < s.loads.length ∧ (s.load id).tag = t
  standing : ∀ {id}, id < s.loads.length →
    ((s.load id).standing = .waiting ↔ s.pending.get? (s.load id).tag = some id)
  apart : ∀ {t}, s.contains t → s.pending.get? t = none

theorem Sound.isCurrent_iff {s : Store α σ ε} (h : s.Sound) {id : Nat} :
    s.isCurrent id ↔ id < s.loads.length ∧ (s.load id).standing = .waiting := by
  rw [Store.isCurrent_iff]
  constructor
  · rintro ⟨hl, hp⟩
    exact ⟨hl, (h.standing hl).mpr hp⟩
  · rintro ⟨hl, hs⟩
    exact ⟨hl, (h.standing hl).mp hs⟩

theorem Sound.filed {s : Store α σ ε} (h : s.Sound) : s.Filed := h.pending_load

theorem Sound.isCurrent {s : Store α σ ε} (h : s.Sound) {t : String} {id : Nat}
    (hp : s.pending.get? t = some id) : s.isCurrent id :=
  Filed.isCurrent h.filed hp

/-- One load is settled, and nothing is done to the others. -/
structure Settles (s : Store α σ ε) (id : Nat) (e : Standing) (s' : Store α σ ε) : Prop where
  current : s.isCurrent id
  final : e ≠ .waiting
  length : s'.loads.length = s.loads.length
  same : Load.Later { s.load id with standing := e } (s'.load id)
  other : ∀ j, j ≠ id → s'.load j = s.load j
  pending : s'.pending = s.pending.erase (s.load id).tag

namespace Settles

variable {s s' : Store α σ ε} {id : Nat} {e : Standing}

theorem standing (h : s.Settles id e s') : (s'.load id).standing = e := h.same.standing h.final

theorem later (h : s.Settles id e s') (hs : s.Sound) (j : Nat) :
    Load.Later (s.load j) (s'.load j) := by
  by_cases hj : j = id
  · subst hj
    have hw := (hs.isCurrent_iff.mp h.current).2
    exact ⟨h.same.tag, h.same.waiters, h.same.fetch, fun hn => absurd hw hn⟩
  · rw [h.other j hj]
    exact .refl _

theorem get? (h : s.Settles id e s') (t : String) :
    s'.pending.get? t = if (s.load id).tag = t then none else s.pending.get? t := by
  rw [h.pending, Table.get?_erase]

theorem size (h : s.Settles id e s') : s'.pending.size < s.pending.size := by
  rw [h.pending]
  exact Table.size_erase_lt (isCurrent_iff.mp h.current).2

theorem not_current (h : s.Settles id e s') : ¬ s'.isCurrent id := by
  rw [isCurrent_iff, h.get?, h.same.tag]
  simp

theorem current_other (h : s.Settles id e s') {j : Nat} (hj : j ≠ id) :
    s'.isCurrent j ↔ s.isCurrent j := by
  have hp := (isCurrent_iff.mp h.current).2
  rw [isCurrent_iff, isCurrent_iff, h.length, h.other j hj, h.get?]
  constructor
  · rintro ⟨hl, ht⟩
    split at ht
    · contradiction
    · exact ⟨hl, ht⟩
  · rintro ⟨hl, ht⟩
    refine ⟨hl, ?_⟩
    rw [if_neg, ht]
    intro he
    rw [he, ht] at hp
    exact hj (Option.some.inj hp)

theorem sound (h : s.Settles id e s') (hs : s.Sound)
    (hi : ∀ t, s'.contains t → s.contains t ∨ t = (s.load id).tag) : s'.Sound where
  pending_load {t j} hp := by
    rw [h.get?] at hp
    split at hp
    · contradiction
    · have hj := hs.pending_load hp
      exact ⟨h.length ▸ hj.1, (h.later hs j).tag.trans hj.2⟩
  standing {j} hl := by
    rw [h.length] at hl
    by_cases hj : j = id
    · subst hj
      rw [h.standing, h.get?, h.same.tag]
      simp [h.final]
    · have hc := h.current_other hj
      rw [isCurrent_iff, hs.isCurrent_iff, h.length] at hc
      rw [h.other j hj] at hc ⊢
      simpa [hl] using hc.symm
  apart {t} ht := by
    rw [h.get?]
    split
    · rfl
    · rename_i hne
      exact hs.apart ((hi t ht).resolve_right fun he => hne he.symm)

end Settles

theorem later_cancelTimer (s : Store α σ ε) (id j : Nat) :
    Load.Later (s.load j) ((s.cancelTimer id).load j) := by
  by_cases hj : j = id
  · subst hj
    by_cases hl : j < s.loads.length
    · rw [cancelTimer, load_modify_self _ hl]
      split
      · exact ⟨rfl, rfl, rfl, fun _ => rfl⟩
      · exact .refl _
    · simp only [load, cancelTimer, modify, List.getElem?_modify,
        List.getElem?_eq_none (Nat.le_of_not_lt hl)]
      exact .refl _
  · rw [cancelTimer, load_modify_ne _ hj]
    exact .refl _

theorem Settles.cancelTimer {s s' : Store α σ ε} {id : Nat} {e : Standing}
    (h : s.Settles id e s') : s.Settles id e (s'.cancelTimer id) where
  current := h.current
  final := h.final
  length := by rw [← h.length]; simp [Store.cancelTimer]
  same := h.same.trans (later_cancelTimer s' id id)
  other j hj := by rw [Store.cancelTimer, load_modify_ne _ hj, h.other j hj]
  pending := h.pending

theorem settles_settle {s : Store α σ ε} {id : Nat} {e : Standing} (h : s.isCurrent id)
    (he : e ≠ .waiting) : s.Settles id e (s.settle id e) := by
  have hl := (isCurrent_iff.mp h).1
  have heq : s.settle id e =
      { s.mark id e with pending := s.pending.erase (s.load id).tag } := by
    simp [settle, load, hl]
  rw [heq]
  refine ⟨h, he, by simp [mark], ?_, fun j hj => ?_, rfl⟩
  · have := load_modify_self (s := s) (fun l => { l with standing := e }) hl
    exact this ▸ .refl _
  · exact load_modify_ne _ hj

@[simp] theorem installed_settle (s : Store α σ ε) (id : Nat) (e : Standing) :
    (s.settle id e).installed = s.installed := by
  unfold settle
  split <;> rfl

theorem Settles.of_eq {s s' u : Store α σ ε} {id : Nat} {e : Standing} (h : s.Settles id e s')
    (hl : u.loads = s'.loads) (hp : u.pending = s'.pending) : s.Settles id e u := by
  have hload : ∀ j, u.load j = s'.load j := by
    intro j
    rw [load, load, hl]
  constructor
  · exact h.current
  · exact h.final
  · rw [hl]
    exact h.length
  · rw [hload]
    exact h.same
  · intro j hj
    rw [hload]
    exact h.other j hj
  · rw [hp]
    exact h.pending

section Operations

variable {s : Store α σ ε} {id : Nat}

theorem settles_detach (h : s.isCurrent id) : s.Settles id .abandoned (s.detach id).2 := by
  rw [detach, if_pos h]
  exact settles_settle h nofun

theorem settles_installIfPending (h : s.isCurrent id) (tag : String) (x : α) :
    s.Settles id .installed (s.installIfPending id tag x).2 := by
  have hset := settles_settle (e := .installed) h nofun
  rw [installIfPending, if_pos h]
  apply hset.of_eq
  · rfl
  · rfl

theorem settles_install (h : s.isCurrent id) (x : α) :
    s.Settles id .installed (s.install (s.load id).tag x).2 := by
  have hset := settles_settle (e := .installed) h nofun
  obtain ⟨hl, hp⟩ := isCurrent_iff.mp h
  have hget : s.loads[id]? = some (s.load id) := by simp [load, hl]
  apply hset.of_eq
  · simp [install, hp, settle, hget]
  · simp [install, hp, settle, hget, mark, modify]

end Operations

end Store

end Phrasebook
