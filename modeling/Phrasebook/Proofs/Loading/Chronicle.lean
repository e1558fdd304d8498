import Phrasebook.Proofs.Loading.Fate

/-!
# The chronicle of an announcement

What happens while turns are taken is a list of incidents: which load was settled and how, and
which turn was taken, for whom, and what it raised by itself. A load that is settled in the middle
of a turn is announced there, so the chronicle of its waiters stands inside that of the others.
`Tells` is the chronicle of the turns of an announcement, one case for a turn that settles nothing
and one for a turn that settles a load; every announcement has one.
-/

namespace Phrasebook

namespace Coordinator

inductive Incident where
  | settled (load : Nat) (outcome : Option Fault)
  /-- A turn is taken for the waiter of a load, or for the one who acted. What is raised by the
  announcement in the middle of it is not its own. -/
  | turn (owner : Option Nat) (c : Coordinator) (t : Turn) (raised : Option Fault)

/-- Nothing is settled: the loads and the pending table stay as they are. -/
structure Calm (c d : Coordinator) : Prop where
  loads : d.desk.store.loads = c.desk.store.loads
  pending : ∀ t, d.desk.store.pending.get? t = c.desk.store.pending.get? t
  later : Later c d
  sound : d.desk.Sound

/-- What a turn raises by itself, given what the announcement in it raises. -/
def own (inner raised : Option Fault) : Option Fault := if inner.isSome then none else raised

/-- The chronicle of some turns, which lead from one state to another and raise some faults. -/
inductive Tells : Option Nat → Coordinator → List Turn → Coordinator → List Fault →
    List Incident → Prop where
  | nil {owner c} : Tells owner c [] c [] []
  | alone {owner c t c₁ f ts d fs is} (hc : Calm c c₁)
      (heq : ∀ announce, take announce c t = (c₁, f))
      (rest : Tells owner c₁ ts d fs is) :
      Tells owner c (t :: ts) d (f.toList ++ fs) (.turn owner c t f :: is)
  | through {owner c t e id outcome place r c₁ gs js c₂ f ts d fs is} (he : Ends c id outcome e)
      (heq : ∀ announce, take announce c t = reportAfter place r (announce e id outcome))
      (inner : Tells (some id) (e.forewarn id outcome) ((e.loadOf id).turns outcome) c₁ gs js)
      (hout : reportAfter place r (c₁, gather ((e.loadOf id).unhandled outcome) gs) = (c₂, f))
      (rest : Tells owner c₂ ts d fs is) :
      Tells owner c (t :: ts) d (f.toList ++ fs)
        (.turn owner c t (own (gather ((e.loadOf id).unhandled outcome) gs) f) ::
          .settled id outcome :: (js ++ is))

section Calm

variable {c d : Coordinator}

theorem Calm.isCurrent (h : Calm c d) (id : Nat) :
    d.desk.store.isCurrent id ↔ c.desk.store.isCurrent id := by
  have hload : d.desk.store.load id = c.desk.store.load id := by
    rw [Store.load, Store.load, h.loads]
  rw [Store.isCurrent_iff, Store.isCurrent_iff, h.loads, hload, h.pending]

theorem Aside.calm {t : Turn} (h : Aside c t d) (hs : c.desk.Sound) : Calm c d := by
  obtain ⟨hsound, hlater⟩ := h.keeps hs
  obtain ⟨n, hn⟩ := h.desk
  refine ⟨?_, fun _ => ?_, hlater, hsound⟩
  · rw [hn]
  · rw [hn]

theorem calm_report {l : Lexicon} (h : Puts c l d) (place : Nat) (r : Option Reporter) :
    Calm c (report d place r).1 := by
  obtain ⟨hsound, hlater⟩ := report_keeps h.sound place r
  have hdesk := (report_serves (c := d) place r).1
  refine ⟨?_, fun t => ?_, h.later.trans hlater, hsound⟩
  · rw [hdesk, h.loads]
  · rw [hdesk, h.pending]

theorem reportAfter_none (place : Nat) (s : Step) : reportAfter place none s = s := by
  rcases s with ⟨d, _ | f⟩ <;> rfl

theorem desk_reportAfter (place : Nat) (r : Option Reporter) (s : Step) :
    (reportAfter place r s).1.desk = s.1.desk := by
  rcases s with ⟨d, _ | f⟩
  · exact (report_serves place r).1
  · rfl

@[simp] theorem store_forewarn (c : Coordinator) (id : Nat) (outcome : Option Fault) :
    (c.forewarn id outcome).desk.store = c.desk.store := by
  obtain ⟨n, hn⟩ := forewarn_cases c id outcome
  rw [hn]

/-- A turn settles nothing, or one load, which it announces. -/
theorem Taken.dichotomy {t : Turn} {act : Announce → Step} (h : Taken c t act)
    (hs : c.desk.Sound) :
    (∃ d f, Calm c d ∧ ∀ announce, act announce = (d, f)) ∨
    ∃ e id outcome place r, Ends c id outcome e ∧
      ∀ announce, act announce = reportAfter place r (announce e id outcome) := by
  cases h with
  | aside h => exact Or.inl ⟨_, _, h.calm hs, fun _ => rfl⟩
  | ends _ h => exact Or.inr ⟨_, _, _, 0, none, h, fun _ => (reportAfter_none 0 _).symm⟩
  | puts _ h => exact Or.inl ⟨_, _, calm_report h _ _, fun _ => rfl⟩
  | installs _ h => exact Or.inr ⟨_, _, none, _, _, h, fun _ => rfl⟩

end Calm

theorem tells_fanout {c : Coordinator} (hs : c.desk.Sound) (ts : List Turn) (owner : Option Nat) :
    ∃ is, Tells owner c ts (fanout c ts).1 (fanout c ts).2 is := by
  refine fanout_induction (motive := fun c ts =>
    ∀ owner, ∃ is, Tells owner c ts (fanout c ts).1 (fanout c ts).2 is) ?_ ?_ hs ts owner
  · exact fun _ _ => ⟨[], .nil⟩
  · intro c t ts hs nested rest owner
    obtain ⟨is, his⟩ := rest owner
    rw [fanout_cons]
    rcases (taken hs t).dichotomy hs with ⟨d, f, hc, heq⟩ | ⟨e, id, outcome, place, r, he, heq⟩
    · rw [heq] at his ⊢
      exact ⟨_, .alone hc heq his⟩
    · obtain ⟨js, hjs⟩ := nested id outcome he.sound he.size (some id)
      exact ⟨_, .through he heq hjs (by rw [heq, announce_eq he.sound]) his⟩

structure Announced (c : Coordinator) (id : Nat) (outcome : Option Fault) (e d : Coordinator) :
    Prop where
  start : (e.forewarn id outcome).desk.Sound
  into : Later c (e.forewarn id outcome)
  inner : Later (e.forewarn id outcome) d
  finish : d.desk.Sound
  turns : (e.loadOf id).turns outcome = (c.loadOf id).turns outcome
  unhandled : (e.loadOf id).unhandled outcome = (c.loadOf id).unhandled outcome

/-- How a turn passes that settles a load: the announcement is over, and then the turn. -/
structure Passes (c : Coordinator) (t : Turn) (id : Nat) (outcome : Option Fault)
    (e c₁ c₂ : Coordinator) (f : Option Fault) : Prop extends Announced c id outcome e c₁ where
  taken : take announce c t = (c₂, f)
  outer : Later c₁ c₂
  sound : c₂.desk.Sound
  later : Later c c₂
  desk : c₂.desk = c₁.desk

theorem turns_congr {l l' : Load Success Failure} (h : l'.waiters = l.waiters)
    (outcome : Option Fault) : l'.turns outcome = l.turns outcome := by
  rw [Load.turns_eq, Load.turns_eq, h]

theorem unhandled_congr {l l' : Load Success Failure} (h : l'.waiters = l.waiters)
    (outcome : Option Fault) : l'.unhandled outcome = l.unhandled outcome := by
  unfold Load.unhandled
  rw [l'.isUnobserved_eq, l.isUnobserved_eq, h]

theorem announced {c e d : Coordinator} {id : Nat} {outcome : Option Fault} {gs : List Fault}
    (he : Ends c id outcome e)
    (hin : fanout (e.forewarn id outcome) ((e.loadOf id).turns outcome) = (d, gs)) :
    Announced c id outcome e d := by
  have hstart := forewarn_sound he.sound id outcome
  have hfanout := fanout_keeps hstart ((e.loadOf id).turns outcome)
  rw [hin] at hfanout
  have hwaiters : (e.loadOf id).waiters = (c.loadOf id).waiters := (he.later.desk.load id).waiters
  exact ⟨hstart, he.later.trans (forewarn_later e id outcome), hfanout.2, hfanout.1,
    turns_congr hwaiters outcome, unhandled_congr hwaiters outcome⟩

theorem passes {c e c₁ c₂ : Coordinator} {t : Turn} {id place : Nat} {outcome f : Option Fault}
    {r : Option Reporter} {gs : List Fault} (hs : c.desk.Sound) (he : Ends c id outcome e)
    (heq : ∀ announce, take announce c t = reportAfter place r (announce e id outcome))
    (hin : fanout (e.forewarn id outcome) ((e.loadOf id).turns outcome) = (c₁, gs))
    (hout : reportAfter place r (c₁, gather ((e.loadOf id).unhandled outcome) gs) = (c₂, f)) :
    Passes c t id outcome e c₁ c₂ f := by
  have htake : take announce c t = (c₂, f) := by
    rw [heq, announce_eq he.sound, hin, hout]
  have ha := announced he hin
  have hkeeps := take_keeps hs t
  have hdesk := desk_reportAfter place r (c₁, gather ((e.loadOf id).unhandled outcome) gs)
  have houter := reportAfter_keeps (s := (c₁, gather ((e.loadOf id).unhandled outcome) gs))
    ha.finish (.refl c₁) place r
  rw [htake] at hkeeps
  rw [hout] at hdesk houter
  exact ⟨ha, htake, houter.2, hkeeps.1, hkeeps.2, hdesk⟩

section Outline

variable {owner : Option Nat} {c d : Coordinator} {ts : List Turn} {fs : List Fault}
  {is : List Incident}

theorem Tells.fanout_eq (h : Tells owner c ts d fs is) (hs : c.desk.Sound) :
    fanout c ts = (d, fs) := by
  induction h with
  | nil => rfl
  | alone hc heq _ ih => rw [fanout_cons, heq, ih hc.sound]
  | through he heq _ hout _ ihin ih =>
    have hp := passes hs he heq (ihin (forewarn_sound he.sound _ _)) hout
    rw [fanout_cons, hp.taken, ih hp.sound]

theorem Tells.keeps (h : Tells owner c ts d fs is) (hs : c.desk.Sound) :
    d.desk.Sound ∧ Later c d := by
  have hkeeps := fanout_keeps hs ts
  rwa [h.fanout_eq hs] at hkeeps

theorem Tells.announced {e : Coordinator} {id : Nat} {outcome : Option Fault}
    (h : Tells owner (e.forewarn id outcome) ((e.loadOf id).turns outcome) d fs is)
    (he : Ends c id outcome e) : Announced c id outcome e d :=
  Coordinator.announced he (h.fanout_eq (forewarn_sound he.sound id outcome))

theorem Tells.passes {e c₁ c₂ : Coordinator} {t : Turn} {id place : Nat} {outcome f : Option Fault}
    {r : Option Reporter} {gs : List Fault} {js : List Incident}
    (inner : Tells (some id) (e.forewarn id outcome) ((e.loadOf id).turns outcome) c₁ gs js)
    (hs : c.desk.Sound) (he : Ends c id outcome e)
    (heq : ∀ announce, take announce c t = reportAfter place r (announce e id outcome))
    (hout : reportAfter place r (c₁, gather ((e.loadOf id).unhandled outcome) gs) = (c₂, f)) :
    Passes c t id outcome e c₁ c₂ f :=
  Coordinator.passes hs he heq (inner.fanout_eq (forewarn_sound he.sound id outcome)) hout

end Outline

def turnsOf (id : Nat) (is : List Incident) : List Turn :=
  is.filterMap fun
    | .turn owner _ t _ => if owner = some id then some t else none
    | .settled .. => none

def outcomesOf (id : Nat) (is : List Incident) : List (Option Fault) :=
  is.filterMap fun
    | .settled j outcome => if j = id then some outcome else none
    | .turn .. => none

/-- What an incident raises: a turn what it raises by itself, a failure itself if some waiter of
the load cannot be told of it. -/
def raises (c : Coordinator) : Incident → List Fault
  | .settled id outcome => ((c.loadOf id).unhandled outcome).toList
  | .turn _ _ _ raised => raised.toList

section Counting

variable {c d : Coordinator} {id : Nat}

theorem turnsOf_append (id : Nat) (is js : List Incident) :
    turnsOf id (is ++ js) = turnsOf id is ++ turnsOf id js :=
  List.filterMap_append

theorem outcomesOf_append (id : Nat) (is js : List Incident) :
    outcomesOf id (is ++ js) = outcomesOf id is ++ outcomesOf id js :=
  List.filterMap_append

@[simp] theorem turnsOf_settled (j : Nat) (o : Option Fault) (is : List Incident) :
    turnsOf id (.settled j o :: is) = turnsOf id is := rfl

@[simp] theorem turnsOf_turn (owner : Option Nat) (t : Turn) (f : Option Fault)
    (is : List Incident) :
    turnsOf id (.turn owner c t f :: is) =
      if owner = some id then t :: turnsOf id is else turnsOf id is := by
  by_cases h : owner = some id
  · simp [turnsOf, h]
  · simp [turnsOf, h]

@[simp] theorem outcomesOf_turn (owner : Option Nat) (t : Turn) (f : Option Fault)
    (is : List Incident) : outcomesOf id (.turn owner c t f :: is) = outcomesOf id is := rfl

@[simp] theorem outcomesOf_settled (j : Nat) (o : Option Fault) (is : List Incident) :
    outcomesOf id (.settled j o :: is) =
      if j = id then o :: outcomesOf id is else outcomesOf id is := by
  by_cases h : j = id
  · simp [outcomesOf, h]
  · simp [outcomesOf, h]

theorem mem_outcomesOf {o : Option Fault} {is : List Incident} :
    o ∈ outcomesOf id is ↔ .settled id o ∈ is := by
  simp only [outcomesOf, List.mem_filterMap]
  constructor
  · rintro ⟨i, hi, he⟩
    cases i with
    | turn => contradiction
    | settled j o' =>
      by_cases hj : j = id
      · simp only [hj, if_true, Option.some.injEq] at he
        rwa [hj, he] at hi
      · simp [hj] at he
  · exact fun h => ⟨_, h, if_pos rfl⟩

theorem mem_turnsOf {t : Turn} {is : List Incident} :
    t ∈ turnsOf id is ↔ ∃ c₁ raised, .turn (some id) c₁ t raised ∈ is := by
  simp only [turnsOf, List.mem_filterMap]
  constructor
  · rintro ⟨i, hi, he⟩
    cases i with
    | settled => contradiction
    | turn owner c₁ t' raised =>
      by_cases ho : owner = some id
      · simp only [ho, if_true, Option.some.injEq] at he
        rw [ho, he] at hi
        exact ⟨c₁, raised, hi⟩
      · simp [ho] at he
  · rintro ⟨c₁, raised, h⟩
    exact ⟨_, h, if_pos rfl⟩

theorem Later.raises (h : Later c d) : d.raises = c.raises := by
  funext i
  cases i with
  | turn => rfl
  | settled j outcome =>
    have hu := unhandled_congr (h.desk.load j).waiters outcome
    exact congrArg Option.toList hu

end Counting

theorem gather_eq_none {u : Option Fault} {fs : List Fault} :
    gather u fs = none ↔ u = none ∧ fs = [] := by
  cases u <;> cases fs <;> simp [gather]

section Account

variable {owner : Option Nat} {c d : Coordinator} {ts : List Turn} {fs : List Fault}
  {is : List Incident}

/-- What an announcement in a turn raises leaves the turn, or it raised nothing and the turn raises
what it raises by itself. -/
theorem reported_cases {place : Nat} {r : Option Reporter} {u f : Option Fault}
    {c₁ c₂ : Coordinator} (h : reportAfter place r (c₁, u) = (c₂, f)) :
    u.isSome ∧ f = u ∧ own u f = none ∨ u = none ∧ own u f = f := by
  cases u with
  | none => exact Or.inr ⟨rfl, rfl⟩
  | some g => exact Or.inl ⟨rfl, (congrArg Prod.snd h).symm, rfl⟩

/-- All that the incidents raise leaves the turns, and nothing else. -/
theorem Tells.leaves (h : Tells owner c ts d fs is) (hs : c.desk.Sound) :
    Fault.leavesAll fs = Fault.leavesAll (is.flatMap c.raises) := by
  induction h with
  | nil => rfl
  | alone hc heq _ ih =>
    have hrest := ih hc.sound
    rw [hc.later.raises] at hrest
    rw [List.flatMap_cons, Fault.leavesAll_append, Fault.leavesAll_append, hrest, raises]
  | @through _ c t e id outcome place r c₁ gs js c₂ f _ _ _ _ he heq inner hout _ ihin ih =>
    have hp := inner.passes hs he heq hout
    have hrest := ih hp.sound
    have hinner := ihin hp.start
    rw [hp.into.raises] at hinner
    rw [hp.later.raises] at hrest
    have hgather := Fault.leavesAll_gather ((e.loadOf id).unhandled outcome) gs
    rw [Fault.leavesAll_append, hinner] at hgather
    simp only [List.flatMap_cons, List.flatMap_append, raises, Fault.leavesAll_append, hrest,
      ← hp.unhandled]
    rcases reported_cases hout with ⟨-, rfl, hown⟩ | ⟨hnone, hown⟩
    · rw [hown, hgather]
      simp [Fault.leavesAll]
    · -- the announcement raised nothing, so none of its incidents did
      rw [hnone] at hgather
      rw [hown]
      have hnil := hgather.symm
      simp only [Option.toList_none, Fault.leavesAll, List.append_eq_nil_iff] at hnil
      simp [hnil]

theorem Tells.quiet (h : Tells owner c ts d fs is) (hs : c.desk.Sound) :
    fs = [] ↔ is.flatMap c.raises = [] := by
  induction h with
  | nil => simp
  | alone hc heq _ ih =>
    have hrest := ih hc.sound
    rw [hc.later.raises] at hrest
    simp only [List.append_eq_nil_iff, List.flatMap_cons, raises, hrest]
  | @through _ c t e id outcome place r c₁ gs js c₂ f _ _ _ _ he heq inner hout _ ihin ih =>
    have hp := inner.passes hs he heq hout
    have hrest := ih hp.sound
    have hinner := ihin hp.start
    rw [hp.into.raises] at hinner
    rw [hp.later.raises] at hrest
    have hgather : gather ((e.loadOf id).unhandled outcome) gs = none ↔
        (e.loadOf id).unhandled outcome = none ∧ gs = [] := gather_eq_none
    simp only [List.flatMap_cons, List.flatMap_append, raises, List.append_eq_nil_iff, hrest,
      ← hinner, ← hp.unhandled, Option.toList_eq_nil_iff]
    rcases reported_cases hout with ⟨-, rfl, hown⟩ | ⟨hnone, hown⟩
    · simp [hown, hgather, and_assoc]
    · obtain ⟨hun, hgs⟩ := hgather.mp hnone
      rw [hown]
      simp [hun, hgs]

end Account

section Order

variable {owner : Option Nat} {c d : Coordinator} {ts : List Turn} {fs : List Fault}
  {is : List Incident} {j : Nat} {outcome : Option Fault}

theorem Tells.settled (h : Tells owner c ts d fs is) (hs : c.desk.Sound)
    (hj : ¬ c.desk.store.isCurrent j) :
    outcomesOf j is = [] ∧ turnsOf j is = if owner = some j then ts else [] := by
  induction h with
  | nil => simp [outcomesOf, turnsOf]
  | alone hc heq _ ih =>
    obtain ⟨ho, ht⟩ := ih hc.sound (mt (hc.isCurrent j).mp hj)
    refine ⟨ho, ?_⟩
    rw [turnsOf_turn, ht]
    split <;> rfl
  | @through owner c t e id outcome place r c₁ gs js c₂ f _ _ _ _ he heq inner hout _ ihin ih =>
    have hne : id ≠ j := by
      rintro rfl
      exact hj he.settles.current
    have hp := inner.passes hs he heq hout
    obtain ⟨ho, ht⟩ := ih hp.sound (mt hp.later.desk.isCurrent hj)
    obtain ⟨hoin, htin⟩ := ihin hp.start (mt hp.into.desk.isCurrent hj)
    rw [if_neg (mt Option.some.inj hne)] at htin
    simp only [outcomesOf_turn, outcomesOf_settled, outcomesOf_append, turnsOf_turn,
      turnsOf_settled, turnsOf_append, if_neg hne, ho, ht, hoin, htin]
    refine ⟨rfl, ?_⟩
    split <;> rfl

/-- A load is settled once, and then its waiters take their turns in order. -/
structure Resolved (j : Nat) (outcome : Option Fault) (c d : Coordinator) (is : List Incident) :
    Prop where
  current : c.desk.store.isCurrent j
  gone : ¬ d.desk.store.isCurrent j
  once : outcomesOf j is = [outcome]
  told : ∃ pre post, is = pre ++ .settled j outcome :: post ∧ turnsOf j pre = [] ∧
    turnsOf j post = (c.loadOf j).turns outcome
  standing : (d.loadOf j).standing = standingOf outcome
  arrived : outcome = none → d.desk.store.contains (c.loadOf j).tag
  error : ∀ f ∈ outcome, ∃ why cause, f = .load (c.loadOf j).tag why cause

/-- Nothing is done for a load. -/
structure Spared (j : Nat) (is : List Incident) : Prop where
  outcomes : outcomesOf j is = []
  turns : turnsOf j is = []

theorem Spared.append {js : List Incident} (h : Spared j is) (k : Spared j js) :
    Spared j (is ++ js) :=
  ⟨by rw [outcomesOf_append, h.outcomes, k.outcomes]; rfl,
    by rw [turnsOf_append, h.turns, k.turns]; rfl⟩

theorem spared_turn {t : Turn} {f : Option Fault} (ho : owner ≠ some j) :
    Spared j [.turn owner c t f] :=
  ⟨rfl, by rw [turnsOf_turn, if_neg ho]; rfl⟩

theorem spared_nil (j : Nat) : Spared j [] := ⟨rfl, rfl⟩

theorem spared_settled {i : Nat} (h : i ≠ j) (outcome : Option Fault) :
    Spared j [.settled i outcome] :=
  ⟨by rw [outcomesOf_settled, if_neg h]; rfl, rfl⟩

theorem Tells.spared (h : Tells owner c ts d fs is) (hs : c.desk.Sound)
    (hj : ¬ c.desk.store.isCurrent j) (ho : owner ≠ some j) : Spared j is := by
  obtain ⟨ho', ht⟩ := h.settled hs hj
  exact ⟨ho', ht.trans (if_neg ho)⟩

theorem Resolved.within {c' d' : Coordinator} {pre post : List Incident}
    (h : Resolved j outcome c' d' is) (hc : Later c c') (hd : Later d' d) (hpre : Spared j pre)
    (hpost : Spared j post) : Resolved j outcome c d (pre ++ (is ++ post)) where
  current := hc.desk.isCurrent h.current
  gone := mt hd.desk.isCurrent h.gone
  once := by
    rw [outcomesOf_append, outcomesOf_append, hpre.outcomes, hpost.outcomes, h.once]
    rfl
  told := by
    obtain ⟨before, after, rfl, hbefore, hafter⟩ := h.told
    refine ⟨pre ++ before, after ++ post, by simp, ?_, ?_⟩
    · rw [turnsOf_append, hpre.turns, hbefore]
      rfl
    · rw [turnsOf_append, hafter, hpost.turns, List.append_nil]
      exact turns_congr (hc.desk.load j).waiters outcome
  standing := ((hd.desk.load j).standing (h.standing ▸ standingOf_ne outcome)).trans h.standing
  arrived hn := by
    have htag : (c'.loadOf j).tag = (c.loadOf j).tag := (hc.desk.load j).tag
    exact hd.desk.contains (htag ▸ h.arrived hn)
  error f hf := by
    have htag : (c'.loadOf j).tag = (c.loadOf j).tag := (hc.desk.load j).tag
    exact htag ▸ h.error f hf

theorem Resolved.after {c' : Coordinator} {pre : List Incident} (h : Resolved j outcome c' d is)
    (hc : Later c c') (hpre : Spared j pre) : Resolved j outcome c d (pre ++ is) := by
  have hw := h.within hc (.refl d) hpre (spared_nil j)
  rwa [List.append_nil] at hw

theorem Resolved.turn (h : Resolved j outcome c d is) {w : Waiter Success Failure}
    (hw : w ∈ (c.loadOf j).waiters) {t : Turn} (ht : w.turn? outcome = some t) :
    ∃ c₁ raised, .turn (some j) c₁ t raised ∈ is := by
  obtain ⟨pre, post, rfl, -, hpost⟩ := h.told
  apply mem_turnsOf.mp
  rw [turnsOf_append, turnsOf_settled, hpost, Load.turns_eq]
  exact List.mem_append_right _ (List.mem_filterMap.mpr ⟨w, hw, ht⟩)

theorem Tells.resolved {e : Coordinator} {id : Nat}
    (h : Tells (some id) (e.forewarn id outcome) ((e.loadOf id).turns outcome) d fs is)
    (he : Ends c id outcome e) : Resolved id outcome c d (.settled id outcome :: is) := by
  have ha := h.announced he
  have hgone : ¬ (e.forewarn id outcome).desk.store.isCurrent id := by
    rw [store_forewarn]
    exact he.settles.not_current
  obtain ⟨ho, ht⟩ := h.settled ha.start hgone
  constructor
  · exact he.settles.current
  · exact mt ha.inner.desk.isCurrent hgone
  · rw [outcomesOf_settled, if_pos rfl, ho]
  · refine ⟨[], is, rfl, rfl, ?_⟩
    rw [ht, if_pos rfl, ha.turns]
  · have hstand := (ha.inner.desk.load id).standing
    rw [store_forewarn, he.settles.standing] at hstand
    exact hstand (standingOf_ne outcome)
  · intro hn
    apply ha.inner.desk.contains
    rw [store_forewarn]
    exact he.arrived hn
  · exact he.error

/-- A load is left alone, or it is resolved. -/
theorem Tells.current (h : Tells owner c ts d fs is) (hs : c.desk.Sound)
    (hj : c.desk.store.isCurrent j) (hown : owner ≠ some j) :
    d.desk.store.isCurrent j ∧ Spared j is ∨ ∃ outcome, Resolved j outcome c d is := by
  induction h with
  | nil => exact Or.inl ⟨hj, rfl, rfl⟩
  | @alone owner c t c₁ f ts d fs is hc heq rest ih =>
    have hturn : Spared j [.turn owner c t f] := spared_turn hown
    rcases ih hc.sound ((hc.isCurrent j).mpr hj) hown with ⟨hd, hsp⟩ | ⟨outcome, h⟩
    · exact Or.inl ⟨hd, hturn.append hsp⟩
    · exact Or.inr ⟨outcome, h.after hc.later hturn⟩
  | @through owner c t e id outcome place r c₁ gs js c₂ f _ d _ is he heq inner hout rest ihin ih =>
    have hp := inner.passes hs he heq hout
    obtain ⟨-, hld⟩ := rest.keeps hp.sound
    have hturn : Spared j
        [.turn owner c t (own (gather ((e.loadOf id).unhandled outcome) gs) f)] := spared_turn hown
    by_cases hid : id = j
    · subst hid
      -- this turn settles the load, and its waiters are told in the announcement
      have hthere := inner.resolved he
      have hrest := rest.spared hp.sound (mt hp.outer.desk.isCurrent hthere.gone) hown
      exact Or.inr ⟨outcome, hthere.within (.refl c) (hp.outer.trans hld) hturn hrest⟩
    · have hpre := hturn.append (spared_settled hid outcome)
      have hje : (e.forewarn id outcome).desk.store.isCurrent j := by
        rw [store_forewarn]
        exact (he.settles.current_other (Ne.symm hid)).mpr hj
      rcases ihin hp.start hje (mt Option.some.inj hid) with ⟨hc₁, hin⟩ | ⟨o, h⟩
      · have hc₂ : c₂.desk.store.isCurrent j := by rwa [hp.desk]
        rcases ih hp.sound hc₂ hown with ⟨hd, hrest⟩ | ⟨o, h⟩
        · exact Or.inl ⟨hd, hpre.append (hin.append hrest)⟩
        · exact Or.inr ⟨o, h.after hp.later (hpre.append hin)⟩
      · have hrest := rest.spared hp.sound (mt hp.outer.desk.isCurrent h.gone) hown
        exact Or.inr ⟨o, h.within hp.into (hp.outer.trans hld) hpre hrest⟩

end Order

/-- Whom a turn in the middle of others is taken for. -/
inductive Origin (owner : Option Nat) (c : Coordinator) (ts : List Turn) (is : List Incident)
    (holder : Option Nat) (c₁ : Coordinator) (t : Turn) : Prop where
  | given (ho : holder = owner) (ht : t ∈ ts)
  | waiter {id outcome} (ho : holder = some id) (hm : .settled id outcome ∈ is)
      (ht : t ∈ (c.loadOf id).turns outcome)
      (ha : outcome = none → c₁.desk.store.contains (c.loadOf id).tag)

/-- A turn in the middle of others: where it comes from, and what becomes of it. -/
structure Scene (owner : Option Nat) (c : Coordinator) (ts : List Turn) (d : Coordinator)
    (is : List Incident) (holder : Option Nat) (c₁ : Coordinator) (t : Turn)
    (raised : Option Fault) : Prop where
  sound : c₁.desk.Sound
  before : Later c c₁
  origin : Origin owner c ts is holder c₁ t
  taken : ∃ (c₂ : Coordinator) (f : Option Fault) (js : List Incident),
    Tells holder c₁ [t] c₂ f.toList (.turn holder c₁ t raised :: js) ∧
      (.turn holder c₁ t raised :: js) <:+: is ∧ Later c₂ d

section Scene

variable {owner holder : Option Nat} {c c' c₁ d d' : Coordinator} {ts us : List Turn} {t : Turn}
  {raised : Option Fault} {fs : List Fault} {is js : List Incident}

theorem origin_waiter {id : Nat} {outcome : Option Fault} (hc : Later c c') (hi : is ⊆ js)
    (ho : holder = some id) (hm : .settled id outcome ∈ is) (ht : t ∈ (c'.loadOf id).turns outcome)
    (ha : outcome = none → c₁.desk.store.contains (c'.loadOf id).tag) :
    Origin owner c ts js holder c₁ t := by
  have hl := hc.desk.load id
  rw [loadOf_eq, turns_congr hl.waiters] at ht
  rw [loadOf_eq, hl.tag] at ha
  exact .waiter ho (hi hm) ht ha

theorem Scene.within (h : Scene owner c ts d is holder c₁ t raised) (hc : Later c' c)
    (hd : Later d d') (hi : is <:+: js) (hts : ∀ u ∈ ts, u ∈ us) :
    Scene owner c' us d' js holder c₁ t raised where
  sound := h.sound
  before := hc.trans h.before
  origin := by
    cases h.origin with
    | given ho ht => exact .given ho (hts t ht)
    | waiter ho hm ht ha => exact origin_waiter hc hi.subset ho hm ht ha
  taken := by
    obtain ⟨c₂, f, ks, htells, hks, hl⟩ := h.taken
    exact ⟨c₂, f, ks, htells, hks.trans hi, hl.trans hd⟩

theorem Scene.after (h : Scene owner c ts d is holder c₁ t raised) :
    Later (take announce c₁ t).1 d := by
  obtain ⟨c₂, f, js, htells, -, hl⟩ := h.taken
  have htake : (take announce c₁ t).1 = c₂ := congrArg Prod.fst (htells.fanout_eq h.sound)
  exact htake ▸ hl

theorem Scene.inner {e : Coordinator} {id : Nat} {outcome : Option Fault} {i : Incident}
    {ks : List Incident}
    (h : Scene (some id) (e.forewarn id outcome) ((e.loadOf id).turns outcome) d js
      holder c₁ t raised)
    (he : Ends c id outcome e) (hd : Later d d')
    (hi : is = i :: .settled id outcome :: (js ++ ks)) :
    Scene owner c ts d' is holder c₁ t raised := by
  have hinto := he.later.trans (forewarn_later e id outcome)
  have hjs : js <:+: is := ⟨[i, .settled id outcome], ks, by rw [hi]; simp⟩
  refine ⟨h.sound, hinto.trans h.before, ?_, ?_⟩
  · cases h.origin with
    | given ho ht =>
      have hm : Incident.settled id outcome ∈ is := by
        rw [hi]
        exact List.mem_cons_of_mem i List.mem_cons_self
      refine origin_waiter he.later (List.Subset.refl is) ho hm ht fun hn => ?_
      have harrived := he.arrived hn
      rw [← store_forewarn e id outcome] at harrived
      rw [loadOf_eq, (he.later.desk.load id).tag]
      exact h.before.desk.contains harrived
    | waiter ho hm ht ha => exact origin_waiter hinto hjs.subset ho hm ht ha
  · obtain ⟨c₂, f, ks, htells, hks, hl⟩ := h.taken
    exact ⟨c₂, f, ks, htells, hks.trans hjs, hl.trans hd⟩

theorem Tells.scene (h : Tells owner c ts d fs is) (hs : c.desk.Sound)
    (hm : .turn holder c₁ t raised ∈ is) : Scene owner c ts d is holder c₁ t raised := by
  induction h with
  | nil => exact absurd hm List.not_mem_nil
  | @alone owner c t' c' f ts d fs is hc heq rest ih =>
    rcases List.mem_cons.mp hm with hm | hm
    · cases hm
      refine ⟨hs, .refl _, .given rfl List.mem_cons_self, c', raised, [], ?_, ?_, ?_⟩
      · have h : Tells holder c₁ [t] c' (raised.toList ++ []) [.turn holder c₁ t raised] :=
          .alone hc heq .nil
        rwa [List.append_nil] at h
      · exact (List.prefix_append [_] is).isInfix
      · exact (rest.keeps hc.sound).2
    · exact (ih hc.sound hm).within hc.later (.refl d) (List.suffix_cons _ is).isInfix
        fun _ => List.mem_cons_of_mem _
  | @through owner c t' e id outcome place r c' gs js c'' f ts d fs is he heq inner hout rest
      ihin ih =>
    have hp := inner.passes hs he heq hout
    obtain ⟨-, hld⟩ := rest.keeps hp.sound
    rcases List.mem_cons.mp hm with hm | hm
    · cases hm
      refine ⟨hs, .refl _, .given rfl List.mem_cons_self, c'', f, .settled id outcome :: js,
        ?_, ?_, hld⟩
      · have h : Tells holder c₁ [t] c'' (f.toList ++ []) (.turn holder c₁ t _ ::
            .settled id outcome :: (js ++ [])) := .through he heq inner hout .nil
        rwa [List.append_nil, List.append_nil] at h
      · exact (List.prefix_append (_ :: _ :: js) is).isInfix
    · rcases List.mem_append.mp ((List.mem_cons.mp hm).resolve_left nofun) with hm | hm
      · exact (ihin hp.start hm).inner he (hp.outer.trans hld) rfl
      · exact (ih hp.sound hm).within hp.later (.refl d)
          (List.suffix_append (_ :: _ :: js) is).isInfix fun _ => List.mem_cons_of_mem _

end Scene

end Coordinator

end Phrasebook
