import Phrasebook.Proofs.Loading.Settling
import Phrasebook.Proofs.Loading.Ticket

/-!
# The turns of an announcement

Telling the waiters of a settled load is a list of turns. A turn settles one load at most, which is
then announced in the middle of it, and no turn adds a load or a waiter. `taken` says all that a
turn can do; what holds of every announcement is derived from it.
-/

namespace Phrasebook

/-- What a waiter that extends a base takes its own base to be. -/
def Success.Awaits (t : String) : Success → Prop
  | .listener _ => True
  | .extendLoad _ base _ => base = t
  | .extendDefinition _ base _ _ => base = t

/-- What holds of a desk between any two of its operations. -/
structure Desk.Sound (d : Desk Success Failure) : Prop where
  store : d.store.Sound
  shelved : ∀ {t place}, d.store.get? t = some place → place < d.shelf.length
  awaits : ∀ {id w}, w ∈ (d.store.load id).waiters → w.onSuccess.Awaits (d.store.load id).tag

theorem Desk.Sound.lexicon? {d : Desk Success Failure} (h : d.Sound) {t : String}
    (ht : d.store.contains t) : (d.lexicon? t).isSome := by
  obtain ⟨place, hp⟩ := Option.isSome_iff_exists.mp ht
  have hl := h.shelved hp
  have hg : d.store.get? t = some place := hp
  simp [Desk.lexicon?, hg, hl]

/-- How a desk changes while waiters are told: loads are settled and lexicons installed. -/
structure Desk.Later (d d' : Desk Success Failure) : Prop where
  service : d'.service = d.service
  calls : d'.calls = d.calls
  shelf : d.shelf <+: d'.shelf
  contains : ∀ {t}, d.store.contains t → d'.store.contains t
  length : d'.store.loads.length = d.store.loads.length
  load : ∀ id, Load.Later (d.store.load id) (d'.store.load id)
  pending : ∀ {t id}, d'.store.pending.get? t = some id → d.store.pending.get? t = some id
  size : d'.store.pending.size ≤ d.store.pending.size

theorem Desk.Later.refl (d : Desk Success Failure) : d.Later d :=
  ⟨rfl, rfl, List.prefix_rfl, id, rfl, fun _ => .refl _, id, Nat.le_refl _⟩

theorem Desk.Later.trans {d e f : Desk Success Failure} (h : d.Later e) (k : e.Later f) :
    d.Later f where
  service := k.service.trans h.service
  calls := k.calls.trans h.calls
  shelf := h.shelf.trans k.shelf
  contains ht := k.contains (h.contains ht)
  length := k.length.trans h.length
  load id := (h.load id).trans (k.load id)
  pending hp := h.pending (k.pending hp)
  size := Nat.le_trans k.size h.size

theorem shelved_mono {ls ms : List Lexicon} (h : ls <+: ms) {n : Nat} {l : Lexicon}
    (hl : ls[n]? = some l) : ms[n]? = some l := by
  obtain ⟨hlt, rfl⟩ := List.getElem?_eq_some_iff.mp hl
  exact List.prefix_iff_getElem?.mp h n hlt

theorem Desk.Later.isCurrent {d d' : Desk Success Failure} (h : d.Later d') {id : Nat}
    (hc : d'.store.isCurrent id) : d.store.isCurrent id := by
  rw [Store.isCurrent_iff] at hc ⊢
  exact ⟨h.length ▸ hc.1, (h.load id).tag ▸ h.pending hc.2⟩

namespace Coordinator

structure Later (c c' : Coordinator) : Prop where
  desk : c.desk.Later c'.desk
  client : c.client.Later c'.client

theorem Later.refl (c : Coordinator) : Later c c := ⟨.refl _, .refl _⟩

theorem Later.trans {c d e : Coordinator} (h : Later c d) (k : Later d e) : Later c e :=
  ⟨h.desk.trans k.desk, h.client.trans k.client⟩

theorem loadOf_eq (c : Coordinator) (id : Nat) : c.loadOf id = c.desk.store.load id := rfl

def standingOf : Option Fault → Standing
  | none => .installed
  | some _ => .abandoned

theorem standingOf_ne (outcome : Option Fault) : standingOf outcome ≠ .waiting := by
  cases outcome <;> nofun

/-- A load is settled and now has to be announced. -/
structure Ends (c : Coordinator) (id : Nat) (outcome : Option Fault) (c' : Coordinator) :
    Prop where
  settles : c.desk.store.Settles id (standingOf outcome) c'.desk.store
  later : Later c c'
  sound : c'.desk.Sound
  arrived : outcome = none → c'.desk.store.contains (c.loadOf id).tag
  error : ∀ f ∈ outcome, ∃ why cause, f = .load (c.loadOf id).tag why cause
  client : c'.client = c.client

/-- What is done for someone: a waiter is told, a lexicon is installed, or a load is ended. -/
inductive Turn where
  | success (s : Success)
  | failure (f : Fault) (w : Failure)
  | install (l : Lexicon) (r : Option Reporter)
  | finish (load : Nat) (data : Value) (base : Option Lexicon)
  | giveUp (load : Nat) (why : LoadFailure) (cause : Fault)

namespace Turn

def Holds : Turn → Ticket → Prop
  | success s, k => s.Holds k
  | failure _ w, k => w.Holds k
  | install _ r, k => ∃ x ∈ r, x.Holds k
  | finish .., _ | giveUp .., _ => False

/-- The load that a turn is to end, unless it was settled before. -/
def load? : Turn → Option Nat
  | success (.extendLoad id _ _) | failure _ (.abandonLoad id _) => some id
  | finish id _ _ | giveUp id _ _ => some id
  | _ => none

/-- The data have an integer for a key that is too long for the message about it. -/
def Unreadable : Turn → Prop
  | success (.extendLoad _ _ data) | finish _ data _ =>
    LexiconData.ofValue data = .error .longNumber
  | _ => False

def Baseless (c : Coordinator) : Turn → Prop
  | success (.extendLoad _ base _) | success (.extendDefinition _ base _ _) =>
    c.desk.lexicon? base = none
  | _ => False

def definition? (c : Coordinator) : Turn → Option (Lexicon × Option Reporter)
  | install l r => some (l, r)
  | success (.extendDefinition tag base data r) =>
    (c.desk.lexicon? base).map fun l => (l.derive tag data, r)
  | _ => none

end Turn

def overlaid (tag : String) : Option Lexicon → LexiconData → Lexicon
  | none => .ofData tag
  | some l => l.derive tag

theorem tag_overlaid (tag : String) (base : Option Lexicon) (data : LexiconData) :
    (overlaid tag base data).tag = tag := by
  cases base <;> rfl

/-- Takes a turn; loads that are settled by it are announced in the way given. -/
def take (announce : Announce) (c : Coordinator) : Turn → Step
  | .success s => succeed announce c s
  | .failure f w => fail announce f c w
  | .install l r => Coordinator.install announce c l r
  | .finish id data base => finish announce c id data (overlaid (c.loadOf id).tag base)
  | .giveUp id why cause => failLoad announce c id why cause

/-- A turn that settles nothing and installs nothing. -/
structure Aside (c : Coordinator) (t : Turn) (c' : Coordinator) : Prop where
  desk : ∃ n, c'.desk = { c.desk with notices := n }
  client : c.client.Serves t.Holds c'.client
  load : ∀ id ∈ t.load?, c.desk.store.isCurrent id → t.Unreadable ∨ t.Baseless c

/-- A definition is installed under a tag that no load is pending for. -/
structure Puts (c : Coordinator) (l : Lexicon) (c' : Coordinator) : Prop where
  vacant : c.desk.store.pending.get? l.tag = none
  pending : ∀ t, c'.desk.store.pending.get? t = c.desk.store.pending.get? t
  loads : c'.desk.store.loads = c.desk.store.loads
  later : Later c c'
  sound : c'.desk.Sound
  client : c'.client = c.client
  place : c'.desk.store.get? l.tag = some c.desk.shelf.length
  shelf : c'.desk.shelf = c.desk.shelf ++ [l]

/-- What waiters raise keeps an installation from being reported. -/
def reportAfter (place : Nat) (r : Option Reporter) : Step → Step
  | (c, some f) => (c, some f)
  | (c, none) => report c place r

/-- All that a turn can do, whoever makes the announcements. -/
inductive Taken (c : Coordinator) (t : Turn) : (Announce → Step) → Prop where
  | aside {c' f} (h : Aside c t c') : Taken c t fun _ => (c', f)
  | ends {c' id outcome} (ht : t.load? = some id) (h : Ends c id outcome c') :
      Taken c t fun announce => announce c' id outcome
  | puts {c' l r} (ht : t.definition? c = some (l, r)) (h : Puts c l c') :
      Taken c t fun _ => report c' c.desk.shelf.length r
  | installs {c' id l r} (ht : t.definition? c = some (l, r)) (h : Ends c id none c') :
      Taken c t fun announce => reportAfter c.desk.shelf.length r (announce c' id none)

def Shelves (d d' : Desk Success Failure) (t : String) (l : Option Lexicon) : Prop :=
  d'.shelf = d.shelf ++ l.toList ∧
    d'.store.installed = match l with
      | none => d.store.installed
      | some _ => d.store.installed.insert t d.shelf.length

theorem Shelves.get? {d d' : Desk Success Failure} {t : String} {l : Lexicon}
    (h : Shelves d d' t (some l)) (u : String) :
    d'.store.get? u = if t = u then some d.shelf.length else d.store.get? u := by
  rw [Store.get?, h.2, Table.get?_insert]
  rfl

theorem Shelves.contains {d d' : Desk Success Failure} {t : String} {l : Option Lexicon}
    (h : Shelves d d' t l) {u : String} :
    d'.store.contains u ↔ d.store.contains u ∨ (l.isSome ∧ u = t) := by
  cases l with
  | none => simp [Store.contains, h.2]
  | some l =>
    by_cases hu : t = u
    · simp [Store.contains, Table.contains, h.2, hu]
    · simp [Store.contains, Table.contains, h.2, hu, Ne.symm hu]

theorem Shelves.shelved {d d' : Desk Success Failure} {t : String} {l : Option Lexicon}
    (h : Shelves d d' t l) (hd : d.Sound) {u : String} {place : Nat}
    (hp : d'.store.get? u = some place) : place < d'.shelf.length := by
  rw [h.1, List.length_append]
  cases l with
  | none =>
    rw [Store.get?, h.2] at hp
    exact Nat.lt_of_lt_of_le (hd.shelved hp) (Nat.le_add_right _ _)
  | some l =>
    rw [h.get?] at hp
    split at hp
    · have := Option.some.inj hp
      simp [this]
    · exact Nat.lt_of_lt_of_le (hd.shelved hp) (Nat.le_add_right _ _)

theorem ends_of_settles {c : Coordinator} {id : Nat} {outcome : Option Fault}
    {d : Desk Success Failure} {l : Option Lexicon} (hs : c.desk.Sound)
    (h : c.desk.store.Settles id (standingOf outcome) d.store)
    (hl : Shelves c.desk d (c.loadOf id).tag l) (ho : outcome = none → l.isSome)
    (he : ∀ f ∈ outcome, ∃ why cause, f = .load (c.loadOf id).tag why cause)
    (hd : d.service = c.desk.service ∧ d.calls = c.desk.calls) :
    Ends c id outcome { c with desk := d } := by
  have hload := h.later hs.store
  refine ⟨h, ⟨⟨hd.1, hd.2, ?_, ?_, h.length, hload, ?_, Nat.le_of_lt h.size⟩, .refl _⟩,
    ⟨h.sound hs.store ?_, hl.shelved hs, ?_⟩, ?_, he, rfl⟩
  · rw [hl.1]
    exact List.prefix_append _ _
  · exact fun ht => hl.contains.mpr (Or.inl ht)
  · intro t j hp
    have := h.get? t
    rw [this] at hp
    split at hp
    · contradiction
    · exact hp
  · intro t ht
    exact (hl.contains.mp ht).imp_right And.right
  · intro j w hw
    rw [(hload j).waiters] at hw
    rw [(hload j).tag]
    exact hs.awaits hw
  · exact fun hn => hl.contains.mpr (Or.inr ⟨ho hn, rfl⟩)

section Settlements

variable {d : Desk Success Failure} {id : Nat}

theorem giveUp_eq (hc : d.store.isCurrent id) (tag : String) (cause : Fault) :
    d.giveUp id tag cause =
      (true, d.withStore ((d.store.settle id .abandoned).cancelTimer id)) := by
  simp [Desk.giveUp, Store.detach, hc]

theorem shelves_giveUp (hc : d.store.isCurrent id) (tag : String) (cause : Fault) (t : String) :
    Shelves d (d.giveUp id tag cause).2 t none := by
  rw [giveUp_eq hc]
  constructor
  · simp [Desk.withStore]
  · simp [Desk.withStore, Store.cancelTimer]

theorem installLoaded_eq (hc : d.store.isCurrent id) (tag : String) (l : Lexicon) :
    d.installLoaded id tag l =
      (true, { d with shelf := d.shelf ++ [l] }.withStore
        ((d.store.installIfPending id l.tag d.shelf.length).2.cancelTimer id)) := by
  simp [Desk.installLoaded, Desk.shelve, hc]

theorem shelves_installLoaded (hc : d.store.isCurrent id) (tag : String) (l : Lexicon) :
    Shelves d (d.installLoaded id tag l).2 l.tag (some l) := by
  rw [installLoaded_eq hc]
  constructor
  · rfl
  · simp [Desk.withStore, Store.cancelTimer, Store.installIfPending, hc]

end Settlements

theorem giveUp_current {c : Coordinator} {id : Nat} (hs : c.desk.Sound)
    (hc : c.desk.store.isCurrent id) (tag : String) (cause : Fault) (why : LoadFailure) :
    ∃ d, c.desk.giveUp id tag cause = (true, d) ∧
      Ends c id (some (.load (c.loadOf id).tag why (some cause))) { c with desk := d } := by
  have hl := shelves_giveUp hc tag cause (c.loadOf id).tag
  have heq := giveUp_eq hc tag cause
  rw [heq] at hl
  refine ⟨_, heq, ends_of_settles hs ?_ hl nofun ?_ ⟨rfl, rfl⟩⟩
  · exact (Store.settles_settle hc (standingOf_ne _)).cancelTimer
  · rintro f ⟨rfl⟩
    exact ⟨why, some cause, rfl⟩

theorem giveUp_late {d : Desk Success Failure} {id : Nat} (hc : ¬ d.store.isCurrent id)
    (tag : String) (cause : Fault) :
    d.giveUp id tag cause = (false, d.note (.lateFailure tag cause.message)) := by
  rw [Desk.giveUp, Store.detach, if_neg hc]

theorem installLoaded_current {c : Coordinator} {id : Nat} {l : Lexicon} (hs : c.desk.Sound)
    (hc : c.desk.store.isCurrent id) (hl : l.tag = (c.loadOf id).tag) :
    ∃ d, c.desk.installLoaded id (c.loadOf id).tag l = (true, d) ∧
      Ends c id none { c with desk := d } := by
  have hshelves := shelves_installLoaded hc (c.loadOf id).tag l
  have heq := installLoaded_eq hc (c.loadOf id).tag l
  rw [heq, hl] at hshelves
  refine ⟨_, heq.trans (by rw [hl]), ends_of_settles hs ?_ hshelves (fun _ => rfl) nofun ⟨rfl, rfl⟩⟩
  exact (Store.settles_installIfPending hc _ _).cancelTimer

theorem installLoaded_late {d : Desk Success Failure} {id : Nat} (hc : ¬ d.store.isCurrent id)
    (tag : String) (l : Lexicon) :
    d.installLoaded id tag l = (false, d.note (.lateLexicon tag)) := by
  rw [Desk.installLoaded, if_neg hc]

theorem install_pending {c : Coordinator} {id : Nat} {l : Lexicon} (hs : c.desk.Sound)
    (hp : c.desk.store.pending.get? l.tag = some id) :
    ∃ d, c.desk.install l = (c.desk.shelf.length, some id, d) ∧
      Ends c id none { c with desk := d } := by
  have ht : (c.loadOf id).tag = l.tag := (hs.store.pending_load hp).2
  have hset := Store.settles_install (hs.store.isCurrent hp) c.desk.shelf.length
  rw [← loadOf_eq, ht] at hset
  have heq : c.desk.install l =
      (c.desk.shelf.length, some id, { c.desk with shelf := c.desk.shelf ++ [l] }.withStore
        ((c.desk.store.install l.tag c.desk.shelf.length).2.cancelTimer id)) := by
    simp [Desk.install, Desk.shelve, Store.install, hp]
  refine ⟨_, heq, ends_of_settles (l := some l) hs hset.cancelTimer ⟨rfl, ?_⟩ (fun _ => rfl) (by simp)
    ⟨rfl, rfl⟩⟩
  simp [Desk.withStore, Store.cancelTimer, Store.install, hp, Store.mark, ht]

theorem install_vacant {c : Coordinator} {l : Lexicon} (hs : c.desk.Sound)
    (hp : c.desk.store.pending.get? l.tag = none) :
    ∃ d, c.desk.install l = (c.desk.shelf.length, none, d) ∧ Puts c l { c with desk := d } := by
  refine ⟨_, by simp only [Desk.install, Desk.shelve, Store.install, hp]; rfl, ?_⟩
  have hget : ∀ t, (c.desk.store.pending.erase l.tag).get? t = c.desk.store.pending.get? t := by
    intro t
    rw [Table.get?_erase]
    split
    · rename_i he
      exact he ▸ hp.symm
    · rfl
  have hl : Shelves c.desk
      ({ c.desk with shelf := c.desk.shelf ++ [l] }.withStore
        { c.desk.store with
          installed := c.desk.store.installed.insert l.tag c.desk.shelf.length
          pending := c.desk.store.pending.erase l.tag }) l.tag (some l) := ⟨rfl, rfl⟩
  refine ⟨hp, hget, rfl, ⟨⟨rfl, rfl, List.prefix_append _ _, ?_, rfl, fun _ => .refl _, ?_,
    Table.size_erase_le _ _⟩, .refl _⟩, ⟨⟨?_, ?_, ?_⟩, hl.shelved hs, hs.awaits⟩, rfl, ?_, rfl⟩
  · exact fun ht => hl.contains.mpr (Or.inl ht)
  · exact fun h => hget _ ▸ h
  · exact fun h => hs.store.pending_load (hget _ ▸ h)
  · intro id hid
    change _ ↔ (c.desk.store.pending.erase l.tag).get? _ = _
    rw [hget]
    exact hs.store.standing hid
  · intro t ht
    change (c.desk.store.pending.erase l.tag).get? _ = _
    rw [hget]
    rcases hl.contains.mp ht with h | ⟨-, rfl⟩
    · exact hs.store.apart h
    · exact hp
  · simp [hl.get?]

section Engines

variable {c : Coordinator}

theorem failLoad_cases (hs : c.desk.Sound) (id : Nat) (why : LoadFailure) (cause : Fault) :
    (∃ c' outcome, Ends c id outcome c' ∧
      ∀ announce, failLoad announce c id why cause = announce c' id outcome) ∨
    (¬ c.desk.store.isCurrent id ∧
      ∃ n, ∀ announce, failLoad announce c id why cause = (c.note n, none)) := by
  by_cases hc : c.desk.store.isCurrent id
  · obtain ⟨d, hd, he⟩ := giveUp_current hs hc (c.loadOf id).tag cause why
    exact Or.inl ⟨_, _, he, fun _ => by simp only [failLoad, hd]⟩
  · have hd := giveUp_late hc (c.loadOf id).tag cause
    exact Or.inr ⟨hc, _, fun _ => by simp only [failLoad, hd]; rfl⟩

theorem finish_cases (hs : c.desk.Sound) (id : Nat) (data : Value) (base : Option Lexicon) :
    (∃ c' outcome, Ends c id outcome c' ∧ ∀ announce,
      finish announce c id data (overlaid (c.loadOf id).tag base) = announce c' id outcome) ∨
    (¬ c.desk.store.isCurrent id ∧ ∃ n, ∀ announce,
      finish announce c id data (overlaid (c.loadOf id).tag base) = (c.note n, none)) ∨
    (LexiconData.ofValue data = .error .longNumber ∧ ∃ f, ∀ announce,
      finish announce c id data (overlaid (c.loadOf id).tag base) = (c, some f)) := by
  unfold finish
  split
  · rename_i entries _
    by_cases hc : c.desk.store.isCurrent id
    · obtain ⟨d, hd, he⟩ := installLoaded_current hs hc (tag_overlaid (c.loadOf id).tag base entries)
      exact Or.inl ⟨_, none, he, fun _ => by simp only [installLoaded, hd]⟩
    · have hd := installLoaded_late hc (c.loadOf id).tag (overlaid (c.loadOf id).tag base entries)
      exact Or.inr (Or.inl ⟨hc, _, fun _ => by simp only [installLoaded, hd]; rfl⟩)
  · rename_i f hf
    by_cases hshape : f.isShape
    · simp only [hshape, if_true]
      rcases failLoad_cases hs id (.failed f.message) (.data f) with
        ⟨c', o, he, heq⟩ | ⟨hc, n, heq⟩
      · exact Or.inl ⟨c', o, he, heq⟩
      · exact Or.inr (Or.inl ⟨hc, n, heq⟩)
    · have hlong : f = .longNumber := by
        cases f <;> simp_all [LexiconData.Fault.isShape]
      simp only [hshape]
      exact Or.inr (Or.inr ⟨hlong ▸ hf, _, fun _ => rfl⟩)

theorem report_serves (place : Nat) (r : Option Reporter) :
    (report c place r).1.desk = c.desk ∧
      c.client.Serves (fun k => ∃ x ∈ r, x.Holds k) (report c place r).1.client := by
  cases r with
  | none => exact ⟨rfl, .refl _⟩
  | some r =>
    refine ⟨rfl, (Client.serves_reportInstalled c.client place r).mono ?_⟩
    exact fun k hk => ⟨r, rfl, hk⟩

theorem aside_note {t : Turn} (n : Notice)
    (h : ∀ id ∈ t.load?, c.desk.store.isCurrent id → t.Unreadable ∨ t.Baseless c) :
    Aside c t (c.note n) :=
  ⟨⟨_, rfl⟩, .refl _, h⟩

theorem aside_self {t : Turn}
    (h : ∀ id ∈ t.load?, c.desk.store.isCurrent id → t.Unreadable ∨ t.Baseless c) : Aside c t c :=
  ⟨⟨_, rfl⟩, .refl _, h⟩

theorem aside_late {t : Turn} {id : Nat} (ht : t.load? = some id)
    (hc : ¬ c.desk.store.isCurrent id) (n : Notice) : Aside c t (c.note n) := by
  refine aside_note n ?_
  intro j hj hcj
  rw [ht] at hj
  exact absurd (Option.some.inj hj ▸ hcj) hc

theorem taken_finish (hs : c.desk.Sound) {t : Turn} {id : Nat} {data : Value}
    (base : Option Lexicon) (ht : t.load? = some id)
    (hd : LexiconData.ofValue data = .error .longNumber → t.Unreadable) :
    Taken c t fun announce =>
      finish announce c id data (overlaid (c.loadOf id).tag base) := by
  rcases finish_cases hs id data base with ⟨c', o, he, heq⟩ | ⟨hc, n, heq⟩ | ⟨hl, f, heq⟩
  · exact funext heq ▸ .ends ht he
  · exact funext heq ▸ .aside (aside_late ht hc n)
  · exact funext heq ▸ .aside (aside_self fun _ _ _ => Or.inl (hd hl))

theorem taken_install (hs : c.desk.Sound) {t : Turn} {l : Lexicon} {r : Option Reporter}
    (ht : t.definition? c = some (l, r)) :
    Taken c t fun announce => Coordinator.install announce c l r := by
  cases hp : c.desk.store.pending.get? l.tag with
  | none =>
    obtain ⟨d, hd, h⟩ := install_vacant hs hp
    have heq : ∀ announce, Coordinator.install announce c l r =
        report { c with desk := d } c.desk.shelf.length r := by
      intro announce
      simp only [Coordinator.install, hd]
    exact funext heq ▸ .puts ht h
  | some id =>
    obtain ⟨d, hd, h⟩ := install_pending hs hp
    have heq : ∀ announce : Announce, Coordinator.install announce c l r =
        reportAfter c.desk.shelf.length r (announce { c with desk := d } id none) := by
      intro announce
      simp only [Coordinator.install, hd]
      rcases announce { c with desk := d } id none with ⟨c', _ | f⟩ <;> rfl
    exact funext heq ▸ .installs ht h

end Engines

theorem taken {c : Coordinator} (hs : c.desk.Sound) (t : Turn) :
    Taken c t fun announce => take announce c t := by
  cases t with
  | success s =>
    cases s with
    | listener l => exact .aside ⟨⟨_, rfl⟩, Client.serves_hearSuccess _ _ l, nofun⟩
    | extendLoad id base data =>
      simp only [take, succeed]
      cases hb : c.desk.lexicon? base with
      | none => exact .aside (aside_self fun _ _ _ => Or.inr hb)
      | some l => exact taken_finish hs (some l) rfl fun h => h
    | extendDefinition tag base data r =>
      simp only [take, succeed]
      cases hb : c.desk.lexicon? base with
      | none => exact .aside (aside_self nofun)
      | some l => exact taken_install hs (by simp [Turn.definition?, hb])
  | failure f w =>
    cases w with
    | listener l => exact .aside ⟨⟨_, rfl⟩, Client.serves_hearFailure _ f l, nofun⟩
    | abandonLoad id base =>
      simp only [take, fail]
      have hs' : (c.note (.baseFailed (c.loadOf id).tag base f.message)).desk.Sound :=
        ⟨hs.store, hs.shelved, hs.awaits⟩
      rcases failLoad_cases hs' id (.baseFailed base) f with ⟨c', o, he, heq⟩ | ⟨hc, n, heq⟩
      · have hd := he.later.desk
        exact funext heq ▸ .ends rfl ⟨he.settles, ⟨⟨hd.service, hd.calls, hd.shelf, hd.contains,
          hd.length, hd.load, hd.pending, hd.size⟩, he.later.client⟩, he.sound, he.arrived,
          he.error, he.client⟩
      · refine funext heq ▸ .aside ⟨⟨_, rfl⟩, .refl _, ?_⟩
        intro j hj hcj
        exact absurd (Option.some.inj hj ▸ hcj) hc
    | abandonDefinition tag base r =>
      cases r with
      | none => exact .aside (aside_note _ nofun)
      | some r =>
        refine .aside ⟨⟨_, rfl⟩, (Client.serves_reportFailed _ _ r).mono ?_, nofun⟩
        exact fun k hk => ⟨r, rfl, hk⟩
  | install l r => exact taken_install hs rfl
  | finish id data base => exact taken_finish hs base rfl fun h => h
  | giveUp id why cause =>
    simp only [take]
    rcases failLoad_cases hs id why cause with ⟨c', o, he, heq⟩ | ⟨hc, n, heq⟩
    · exact funext heq ▸ .ends rfl he
    · exact funext heq ▸ .aside (aside_late rfl hc n)

end Coordinator

end Phrasebook
