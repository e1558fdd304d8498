import Phrasebook.Proofs.Loading.Announcement

/-!
# The fate of a waiter

A ticket that is held by one waiter of one load, and by nobody else, is served when that load is
settled and not before: the waiter takes its turn once, in some state of the announcement, or the
failure that it cannot be told of is raised. This does not depend on what the other waiters do.
-/

namespace Phrasebook

namespace Fault

mutual

/-- The faults of a group at any nesting, or the one fault. -/
def leaves : Fault → List Fault
  | group fs => leavesAll fs
  | f => [f]

def leavesAll : List Fault → List Fault
  | [] => []
  | f :: fs => leaves f ++ leavesAll fs

end

theorem leavesAll_append (fs gs : List Fault) :
    leavesAll (fs ++ gs) = leavesAll fs ++ leavesAll gs := by
  induction fs with
  | nil => rfl
  | cons f fs ih => simp [leavesAll, ih]

theorem leavesAll_gather (u : Option Fault) (fs : List Fault) :
    leavesAll (Coordinator.gather u fs).toList = leavesAll (u.toList ++ fs) := by
  cases u <;> cases fs <;> simp [Coordinator.gather, leaves, leavesAll]

theorem mem_leavesAll_of_mem {tag : String} {why : LoadFailure} {cause : Option Fault}
    {fs : List Fault} (h : load tag why cause ∈ fs) : load tag why cause ∈ leavesAll fs := by
  obtain ⟨pre, post, rfl⟩ := List.mem_iff_append.mp h
  simp [leavesAll_append, leavesAll, leaves]

end Fault

def Waiter.turn? (w : Waiter Success Failure) : Option Fault → Option Coordinator.Turn
  | none => some (.success w.onSuccess)
  | some f => w.onError.map (.failure f)

theorem Waiter.holds_turn {w : Waiter Success Failure} {outcome : Option Fault}
    {t : Coordinator.Turn} {k : Ticket} (ht : w.turn? outcome = some t) (h : t.Holds k) :
    w.Holds k := by
  cases outcome with
  | none =>
    obtain rfl := Option.some.inj ht
    exact Or.inl h
  | some f =>
    obtain ⟨e, he, rfl⟩ := Option.map_eq_some_iff.mp ht
    exact Or.inr ⟨e, he, h⟩

theorem Load.turns_eq (l : Load Success Failure) (outcome : Option Fault) :
    l.turns outcome = l.waiters.filterMap (·.turn? outcome) := by
  cases outcome with
  | none =>
    simp [Load.turns, l.onSuccess_eq, Waiter.turn?, List.filterMap_eq_map', Function.comp_def]
  | some f => simp [Load.turns, l.onError_eq, Waiter.turn?, List.map_filterMap]

namespace Coordinator

theorem fanout_keeps {c : Coordinator} (hs : c.desk.Sound) (ts : List Turn) :
    (fanout c ts).1.desk.Sound ∧ Later c (fanout c ts).1 :=
  forEach_keeps announce_keeps hs ts

/-- One waiter of one load holds a ticket, and nobody else does. -/
structure Sole (c : Coordinator) (k : Ticket) (id : Nat) (w : Waiter Success Failure) : Prop where
  here : ∃ pre post, (c.loadOf id).waiters = pre ++ w :: post ∧ ∀ x ∈ pre ++ post, ¬ x.Holds k
  elsewhere : ∀ j, j ≠ id → ∀ x ∈ (c.loadOf j).waiters, ¬ x.Holds k

theorem Sole.later {c c' : Coordinator} {k : Ticket} {id : Nat} {w : Waiter Success Failure}
    (h : Sole c k id w) (hl : Later c c') : Sole c' k id w where
  here := by
    have hw := (hl.desk.load id).waiters
    simpa only [loadOf_eq, hw] using h.here
  elsewhere j hj := by
    have hw := (hl.desk.load j).waiters
    simpa only [loadOf_eq, hw] using h.elsewhere j hj

theorem Sole.mem {c : Coordinator} {k : Ticket} {id : Nat} {w : Waiter Success Failure}
    (h : Sole c k id w) : w ∈ (c.loadOf id).waiters := by
  obtain ⟨pre, post, hw, -⟩ := h.here
  rw [hw]
  exact List.mem_append_right pre List.mem_cons_self

/-- A turn is taken in one of the states between `c` and `c'`, and nothing else is done for the
ticket between them. -/
structure TurnAt (k : Ticket) (t : Turn) (c c₁ c' : Coordinator) (fs : List Fault) : Prop where
  sound : c₁.desk.Sound
  before : Later c c₁
  after : Later (take announce c₁ t).1 c'
  unseen : c₁.client.seen k = c.client.seen k
  seen : c'.client.seen k = (take announce c₁ t).1.client.seen k
  raised : ∀ f ∈ Fault.leavesAll (take announce c₁ t).2.toList, f ∈ Fault.leavesAll fs

/-- A waiter was told of an outcome, or it cannot be told and the fault is raised. -/
structure Told (k : Ticket) (w : Waiter Success Failure) (outcome : Option Fault)
    (c c' : Coordinator) (fs : List Fault) : Prop where
  turn : ∀ t ∈ w.turn? outcome, ∃ c₁, TurnAt k t c c₁ c' fs
  silent : w.turn? outcome = none →
    c'.client.seen k = c.client.seen k ∧ ∀ f ∈ outcome, f ∈ Fault.leavesAll fs

/-- Either the load and the ticket are left alone, or the load is settled and the waiter told. -/
inductive Fate (k : Ticket) (id : Nat) (w : Waiter Success Failure) (c c' : Coordinator)
    (fs : List Fault) : Prop where
  | still (hc : c.desk.store.isCurrent id ↔ c'.desk.store.isCurrent id)
      (hv : c'.client.seen k = c.client.seen k)
  | settled {outcome c₀} (hc : c.desk.store.isCurrent id) (hn : ¬ c'.desk.store.isCurrent id)
      (standing : (c'.loadOf id).standing = standingOf outcome)
      (error : ∀ f ∈ outcome, ∃ why cause, f = .load (c.loadOf id).tag why cause)
      (before : Later c c₀) (unseen : c₀.client.seen k = c.client.seen k)
      (gone : ¬ c₀.desk.store.isCurrent id)
      (arrived : outcome = none → c₀.desk.store.contains (c.loadOf id).tag)
      (told : Told k w outcome c₀ c' fs)

section Fate

variable {k : Ticket} {id : Nat} {w : Waiter Success Failure} {c d e : Coordinator}
  {fs gs : List Fault}

theorem Told.extend {outcome : Option Fault} (h : Told k w outcome c d fs) (hl : Later d e)
    (hv : e.client.seen k = d.client.seen k) (hf : ∀ f ∈ Fault.leavesAll fs, f ∈ Fault.leavesAll gs) :
    Told k w outcome c e gs where
  turn t ht := by
    obtain ⟨c₁, h₁⟩ := h.turn t ht
    exact ⟨c₁, h₁.sound, h₁.before, h₁.after.trans hl, h₁.unseen, hv.trans h₁.seen,
      fun f hm => hf f (h₁.raised f hm)⟩
  silent hn := ⟨hv.trans (h.silent hn).1, fun f hm => hf f ((h.silent hn).2 f hm)⟩

theorem Fate.trans (h : Fate k id w c d fs) (j : Fate k id w d e gs) (hcd : Later c d)
    (hde : Later d e) : Fate k id w c e (fs ++ gs) := by
  cases h with
  | still hc hv =>
    cases j with
    | still hc' hv' => exact .still (hc.trans hc') (hv'.trans hv)
    | settled hc' hn standing error before unseen gone arrived told =>
      have htag : (d.loadOf id).tag = (c.loadOf id).tag := (hcd.desk.load id).tag
      rw [htag] at error arrived
      exact .settled (hc.mpr hc') hn standing error (hcd.trans before) (unseen.trans hv) gone arrived
        (told.extend (.refl _) rfl fun f hf => by simp [Fault.leavesAll_append, hf])
  | settled hc hn standing error before unseen gone arrived told =>
    cases j with
    | still hc' hv' =>
      have hstand : (d.loadOf id).standing ≠ .waiting := standing ▸ standingOf_ne _
      exact .settled hc (fun he => hn (hc'.mpr he))
        (((hde.desk.load id).standing hstand).trans standing) error before unseen gone arrived
        (told.extend hde hv' fun f hf => by simp [Fault.leavesAll_append, hf])
    | settled hc' => exact absurd hc' hn

theorem Fate.after (h : Fate k id w d e gs) (hcd : Later c d)
    (hc : c.desk.store.isCurrent id ↔ d.desk.store.isCurrent id)
    (hv : d.client.seen k = c.client.seen k)
    (hf : ∀ f ∈ Fault.leavesAll gs, f ∈ Fault.leavesAll fs) : Fate k id w c e fs := by
  cases h with
  | still hc' hv' => exact .still (hc.trans hc') (hv'.trans hv)
  | settled hc' hn standing error before unseen gone arrived told =>
    have htag : (d.loadOf id).tag = (c.loadOf id).tag := (hcd.desk.load id).tag
    rw [htag] at error arrived
    exact .settled (hc.mpr hc') hn standing error (hcd.trans before) (unseen.trans hv) gone
      arrived (told.extend (.refl _) rfl hf)

theorem Fate.seen (h : Fate k id w c d fs) (hc : ¬ c.desk.store.isCurrent id) :
    d.client.seen k = c.client.seen k := by
  cases h with
  | still _ hv => exact hv
  | settled hc' => exact absurd hc' hc

theorem Turn.holds_of_definition? {t : Turn} {l : Lexicon} {r : Option Reporter}
    (h : t.definition? c = some (l, r)) (hr : ∃ x ∈ r, x.Holds k) : t.Holds k := by
  cases t with
  | success s =>
    cases s with
    | extendDefinition tag base data r' =>
      obtain ⟨b, -, he⟩ := Option.map_eq_some_iff.mp h
      obtain ⟨-, rfl⟩ := Prod.mk.inj he
      exact hr
    | _ => contradiction
  | install l' r' =>
    obtain ⟨-, rfl⟩ := Prod.mk.inj (Option.some.inj h)
    exact hr
  | _ => contradiction

theorem fate_of_own {outcome : Option Fault} (hk : Sole c k id w)
    (h : Ends c id outcome d)
    (ht : ∀ pre t post, (d.loadOf id).turns outcome = pre ++ t :: post →
      (∀ x ∈ pre ++ post, ¬ x.Holds k) →
      ∃ c₁, TurnAt k t (d.forewarn id outcome) c₁ (announce d id outcome).1
        (announce d id outcome).2.toList)
    (hn : (∀ t ∈ (d.loadOf id).turns outcome, ¬ t.Holds k) →
      (announce d id outcome).1.client.seen k = (d.forewarn id outcome).client.seen k) :
    Fate k id w c (announce d id outcome).1 (announce d id outcome).2.toList := by
  obtain ⟨-, hl⟩ := announce_keeps id outcome h.sound
  have hnot : ¬ (announce d id outcome).1.desk.store.isCurrent id :=
    fun hc => h.settles.not_current (hl.desk.isCurrent hc)
  have hstand : (d.loadOf id).standing = standingOf outcome := h.settles.standing
  have hfore := client_forewarn d id outcome
  obtain ⟨pre, post, hw, hother⟩ := (hk.later h.later).here
  have hturns : (d.loadOf id).turns outcome = pre.filterMap (·.turn? outcome) ++
      ((w.turn? outcome).toList ++ post.filterMap (·.turn? outcome)) := by
    rw [Load.turns_eq, hw, List.filterMap_append]
    cases hwt : w.turn? outcome <;> simp [hwt]
  have hrest : ∀ t ∈ pre.filterMap (·.turn? outcome) ++ post.filterMap (·.turn? outcome),
      ¬ t.Holds k := by
    intro t hm hh
    rw [← List.filterMap_append] at hm
    obtain ⟨x, hx, hxt⟩ := List.mem_filterMap.mp hm
    exact hother x hx (Waiter.holds_turn hxt hh)
  refine .settled h.settles.current hnot ?_ h.error h.later (by rw [h.client])
    h.settles.not_current h.arrived ⟨?_, ?_⟩
  · exact ((hl.desk.load id).standing (hstand ▸ standingOf_ne _)).trans hstand
  · intro t hwt
    rw [Option.mem_def.mp hwt] at hturns
    obtain ⟨c₁, h₁⟩ := ht _ t _ hturns hrest
    exact ⟨c₁, h₁.sound, (forewarn_later d id outcome).trans h₁.before, h₁.after,
      h₁.unseen.trans (by rw [hfore]), h₁.seen, h₁.raised⟩
  · intro hwt
    rw [hwt] at hturns
    refine ⟨(hn (hturns ▸ hrest)).trans (by rw [hfore]), ?_⟩
    rintro f ⟨rfl⟩
    obtain ⟨why, cause, rfl⟩ := h.error f rfl
    have hun : (d.loadOf id).isUnobserved :=
      Load.isUnobserved_of_mem (w := w) (by simp [hw]) (by simpa [Waiter.turn?] using hwt)
    rw [announce_eq h.sound, Fault.leavesAll_gather, Load.unhandled, if_pos hun]
    exact Fault.mem_leavesAll_of_mem (List.mem_append_left _ (by simp))

/-- What a list of turns does for a ticket: a load that is settled meanwhile tells its waiter, and
the turn of a waiter whose load is settled is taken. -/
structure Fair (c : Coordinator) (ts : List Turn) : Prop where
  fate : ∀ {k id w}, Sole c k id w → (∀ t ∈ ts, ¬ t.Holds k) →
    Fate k id w c (fanout c ts).1 (fanout c ts).2
  turn : ∀ {k id w}, Sole c k id w → ¬ c.desk.store.isCurrent id → ∀ {pre t post},
    ts = pre ++ t :: post → (∀ x ∈ pre ++ post, ¬ x.Holds k) →
    ∃ c₁, TurnAt k t c c₁ (fanout c ts).1 (fanout c ts).2

theorem fate_of_ends {j : Nat} {outcome : Option Fault} (hk : Sole c k id w)
    (h : Ends c j outcome d)
    (ih : Fair (d.forewarn j outcome) ((d.loadOf j).turns outcome)) :
    Fate k id w c (announce d j outcome).1 (announce d j outcome).2.toList := by
  have hkd : Sole (d.forewarn j outcome) k id w :=
    (hk.later h.later).later (forewarn_later d j outcome)
  obtain ⟨n, hn⟩ := forewarn_cases d j outcome
  have hleaves : ∀ f ∈ Fault.leavesAll (fanout (d.forewarn j outcome) ((d.loadOf j).turns outcome)).2,
      f ∈ Fault.leavesAll (announce d j outcome).2.toList := by
    intro f hf
    rw [announce_eq h.sound, Fault.leavesAll_gather, Fault.leavesAll_append]
    exact List.mem_append_right _ hf
  by_cases hj : id = j
  · subst hj
    have hnot : ¬ (d.forewarn id outcome).desk.store.isCurrent id := by
      rw [hn]
      exact h.settles.not_current
    refine fate_of_own hk h ?_ ?_
    · intro pre t post hturns hrest
      obtain ⟨c₁, h₁⟩ := ih.turn hkd hnot hturns hrest
      refine ⟨c₁, h₁.sound, h₁.before, ?_, h₁.unseen, ?_, fun f hf => hleaves f (h₁.raised f hf)⟩
      · rw [announce_eq h.sound]
        exact h₁.after
      · rw [announce_eq h.sound]
        exact h₁.seen
    · intro hrest
      rw [announce_eq h.sound]
      exact (ih.fate hkd hrest).seen hnot
  · have hrest : ∀ t ∈ (d.loadOf j).turns outcome, ¬ t.Holds k := by
      intro t ht hh
      rw [Load.turns_eq] at ht
      obtain ⟨x, hx, hxt⟩ := List.mem_filterMap.mp ht
      exact (hk.later h.later).elsewhere j (Ne.symm hj) x hx (Waiter.holds_turn hxt hh)
    have hfate := ih.fate hkd hrest
    have heq : (announce d j outcome).1 =
        (fanout (d.forewarn j outcome) ((d.loadOf j).turns outcome)).1 := by rw [announce_eq h.sound]
    rw [heq]
    refine hfate.after (h.later.trans (forewarn_later d j outcome)) ?_ ?_ hleaves
    · rw [hn]
      exact (h.settles.current_other hj).symm
    · rw [hn, h.client]

theorem fate_of_report {place : Nat} {r : Option Reporter} (hr : ¬ ∃ x ∈ r, x.Holds k) :
    Fate k id w d (report d place r).1 (report d place r).2.toList := by
  obtain ⟨hd, hserves⟩ := report_serves (c := d) place r
  exact .still (by rw [hd]) (hserves.seen hr)

theorem fate_of_taken {t : Turn} {act : Announce → Step} (h : Taken c t act)
    (hk : Sole c k id w) (ht : ¬ t.Holds k)
    (ih : ∀ {c' : Coordinator} j outcome, c'.desk.Sound → c'.size < c.size →
      Fair (c'.forewarn j outcome) ((c'.loadOf j).turns outcome)) :
    Fate k id w c (act announce).1 (act announce).2.toList := by
  cases h with
  | aside h =>
    obtain ⟨n, hn⟩ := h.desk
    exact .still (by rw [hn]) (h.client.seen ht)
  | @ends d j outcome hj h => exact fate_of_ends hk h (ih j outcome h.sound h.size)
  | @puts d l r hdef h =>
    have hr : ¬ ∃ x ∈ r, x.Holds k := fun hx => ht (Turn.holds_of_definition? hdef hx)
    refine (fate_of_report hr).after h.later ?_ (by rw [h.client]) fun f hf => hf
    rw [Store.isCurrent_iff, Store.isCurrent_iff, h.loads, h.pending]
    have hload : d.desk.store.load id = c.desk.store.load id := by
      rw [Store.load, Store.load, h.loads]
    rw [hload]
  | @installs d j l r hdef h =>
    have hr : ¬ ∃ x ∈ r, x.Holds k := fun hx => ht (Turn.holds_of_definition? hdef hx)
    obtain ⟨hs', hl⟩ := announce_keeps j none h.sound
    have hfate := fate_of_ends hk h (ih j none h.sound h.size)
    change Fate k id w c (reportAfter _ r (announce d j none)).1
      (reportAfter _ r (announce d j none)).2.toList
    rcases hstep : announce d j none with ⟨e, _ | f⟩
    · rw [hstep] at hfate hl hs'
      obtain ⟨-, hlater⟩ := report_keeps hs' c.desk.shelf.length r
      exact hfate.trans (fate_of_report hr) (h.later.trans hl) hlater
    · rwa [hstep] at hfate

/-- Every list of turns is fair, whatever the waiters do. -/
theorem fair (hs : c.desk.Sound) (ts : List Turn) : Fair c ts := by
  refine fanout_induction (motive := Fair) ?_ ?_ hs ts
  · intro c _
    constructor
    · exact fun _ _ => .still Iff.rfl rfl
    · intro k id w _ _ pre t post he
      cases pre <;> contradiction
  · intro c t ts hs ihannounce ih
    have htake : ∀ {k id w}, Sole c k id w → ¬ t.Holds k →
        Fate k id w c (take announce c t).1 (take announce c t).2.toList :=
      fun hk ht => fate_of_taken (taken hs t) hk ht ihannounce
    obtain ⟨hs₁, hl₁⟩ := take_keeps hs t
    obtain ⟨-, hl₂⟩ := fanout_keeps hs₁ ts
    constructor
    · intro k id w hk hts
      rw [fanout_cons]
      have hfirst := htake hk (hts t List.mem_cons_self)
      have hrest := ih.fate (hk.later hl₁) fun x hx => hts x (List.mem_cons_of_mem t hx)
      exact hfirst.trans hrest hl₁ hl₂
    · intro k id w hk hc pre t' post he hother
      have hc₁ : ¬ (take announce c t).1.desk.store.isCurrent id :=
        fun h => hc (hl₁.desk.isCurrent h)
      rw [fanout_cons]
      cases pre with
      | nil =>
        obtain ⟨rfl, rfl⟩ := List.cons.inj he
        have hseen := (ih.fate (hk.later hl₁) hother).seen hc₁
        refine ⟨c, hs, .refl c, hl₂, rfl, hseen, fun f hf => ?_⟩
        simp [Fault.leavesAll_append, hf]
      | cons p pre =>
        obtain ⟨rfl, rfl⟩ := List.cons.inj he
        have hseen := (htake hk (hother t List.mem_cons_self)).seen hc
        obtain ⟨c₁, h₁⟩ := ih.turn (hk.later hl₁) hc₁ rfl fun x hx =>
          hother x (List.mem_cons_of_mem t hx)
        refine ⟨c₁, h₁.sound, hl₁.trans h₁.before, h₁.after, h₁.unseen.trans hseen, h₁.seen,
          fun f hf => ?_⟩
        rw [Fault.leavesAll_append]
        exact List.mem_append_right _ (h₁.raised f hf)

end Fate

end Coordinator

end Phrasebook
