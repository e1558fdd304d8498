import Phrasebook.Proofs.Loading.Chronicle
import Phrasebook.Proofs.Loading.Deed

/-!
# What leaves a step

Every step of a coordinator has a chronicle. The fault that leaves a step, taken apart, is what the
turns in it raised by themselves, together with the failures that some waiter could not be told of,
each of these before what the waiters of its load raised. Nothing is lost when groups are put into
groups, and no turn is left out because another one raised. What a turn raises by itself may be that
its data are unreadable; and a loader's fault that has no text ends the step before any turn.
-/

namespace Phrasebook

def Given.fault : Given Callback → Option Fault
  | .function f => f.raises
  | .value _ => some .wrongKind

def Reporter.fault : Reporter → Option Fault
  | .caller _ g => g.fault
  | .promise .. => none

def LexiconData.unreadable (data : Value) : Option Phrasebook.Fault :=
  match LexiconData.ofValue data with
  | .ok _ => none
  | .error f => if f.isShape then none else some (.data f)

theorem Client.call_fault (c : Client) (request : Nat) (g : Given Callback) (m : Message) :
    (c.call request g m).2 = g.fault := by
  cases g <;> rfl

namespace Coordinator

/-- What a turn raises by itself: what its callback raises, or that its data are unreadable. -/
def Turn.fault : Turn → Option Fault
  | success (.listener (.caller _ g)) | failure _ (.listener (.caller _ g)) => g.fault
  | success (.extendDefinition _ _ _ r) | failure _ (.abandonDefinition _ _ r) | install _ r =>
    r.bind Reporter.fault
  | success (.extendLoad _ _ data) | finish _ data _ => LexiconData.unreadable data
  | _ => none

/-- Whoever is told gave a callback, and was not given a promise. -/
def Turn.Direct : Turn → Prop
  | success (.listener l) | failure _ (.listener l) => ∃ request g, l = .caller request g
  | success (.extendDefinition _ _ _ r) | failure _ (.abandonDefinition _ _ r) | install _ r =>
    ∀ x ∈ r, ∃ request g, x = .caller request g
  | _ => True

def mute (d : Coordinator) : Announce := fun _ _ _ => (d, none)

section Own

variable {c d : Coordinator} {t : Turn}

theorem report_fault {r : Option Reporter} (hr : ∀ x ∈ r, ∃ request g, x = .caller request g)
    (c : Coordinator) (place : Nat) : (report c place r).2 = r.bind Reporter.fault := by
  cases r with
  | none => rfl
  | some x =>
    obtain ⟨request, g, rfl⟩ := hr x rfl
    exact Client.call_fault _ _ _ _

theorem failLoad_mute (c d : Coordinator) (id : Nat) (why : LoadFailure) (cause : Fault) :
    (failLoad (mute d) c id why cause).2 = none := by
  simp only [failLoad]
  rcases c.desk.giveUp id (c.loadOf id).tag cause with ⟨_ | _, e⟩ <;> rfl

theorem finish_mute (c d : Coordinator) (id : Nat) (data : Value)
    (make : LexiconData → Lexicon) :
    (finish (mute d) c id data make).2 = LexiconData.unreadable data := by
  unfold finish LexiconData.unreadable
  cases LexiconData.ofValue data with
  | ok entries =>
    simp only [installLoaded]
    rcases c.desk.installLoaded id (c.loadOf id).tag (make entries) with ⟨_ | _, e⟩ <;> rfl
  | error f =>
    by_cases hf : f.isShape
    · simp only [hf, if_true]
      exact failLoad_mute c d id _ _
    · simp only [hf]
      rfl

theorem install_mute {r : Option Reporter} (hr : ∀ x ∈ r, ∃ request g, x = .caller request g)
    (c d : Coordinator) (l : Lexicon) :
    (Coordinator.install (mute d) c l r).2 = r.bind Reporter.fault := by
  unfold Coordinator.install
  rcases c.desk.install l with ⟨place, _ | id, e⟩
  · exact report_fault hr _ place
  · exact report_fault hr d place

theorem take_mute (ht : t.Direct) (hb : ¬ t.Baseless c) (d : Coordinator) :
    (take (mute d) c t).2 = t.fault := by
  cases t with
  | success s =>
    cases s with
    | listener l =>
      obtain ⟨request, g, rfl⟩ := ht
      exact Client.call_fault _ _ _ _
    | extendLoad id base data =>
      simp only [take, succeed]
      cases hl : c.desk.lexicon? base with
      | none => exact absurd hl hb
      | some l => exact finish_mute c d id data _
    | extendDefinition tag base data r =>
      simp only [take, succeed]
      cases hl : c.desk.lexicon? base with
      | none => exact absurd hl hb
      | some l => exact install_mute ht c d _
  | failure f w =>
    cases w with
    | listener l =>
      obtain ⟨request, g, rfl⟩ := ht
      exact Client.call_fault _ _ _ _
    | abandonLoad id base => exact failLoad_mute _ d id _ _
    | abandonDefinition tag base r =>
      cases r with
      | none => rfl
      | some x =>
        obtain ⟨request, g, rfl⟩ := ht x rfl
        exact Client.call_fault _ _ _ _
  | install l r => exact install_mute ht c d l
  | finish id data base => exact finish_mute c d id data _
  | giveUp id why cause => exact failLoad_mute c d id why cause

theorem finish_unreadable {data : Value} (h : LexiconData.unreadable data ≠ none)
    (announce : Announce) (c : Coordinator) (id : Nat) (make : LexiconData → Lexicon) :
    finish announce c id data make = (c, LexiconData.unreadable data) := by
  unfold finish LexiconData.unreadable at *
  cases hd : LexiconData.ofValue data with
  | ok entries => simp [hd] at h
  | error f =>
    by_cases hf : f.isShape
    · simp [hd, hf] at h
    · simp [hf]

theorem take_fixed (hb : ¬ t.Baseless c) (hd : t.definition? c = none) (hf : t.fault ≠ none) :
    ∃ s, ∀ announce, take announce c t = s := by
  cases t with
  | success s =>
    cases s with
    | listener l => exact ⟨_, fun _ => rfl⟩
    | extendLoad id base data =>
      cases hl : c.desk.lexicon? base with
      | none => exact absurd hl hb
      | some l =>
        refine ⟨(c, LexiconData.unreadable data), fun announce => ?_⟩
        simp only [take, succeed, hl]
        exact finish_unreadable hf announce c id _
    | extendDefinition tag base data r =>
      cases hl : c.desk.lexicon? base with
      | none => exact absurd hl hb
      | some l => simp [Turn.definition?, hl] at hd
  | failure f w =>
    cases w with
    | listener l => exact ⟨_, fun _ => rfl⟩
    | abandonLoad id base => exact absurd rfl hf
    | abandonDefinition tag base r => exact ⟨_, fun _ => rfl⟩
  | install l r => contradiction
  | finish id data base => exact ⟨_, fun announce => finish_unreadable hf announce c id _⟩
  | giveUp id why cause => exact absurd rfl hf

theorem not_through {s : Step} {e : Coordinator} {id place : Nat} {outcome : Option Fault}
    {r : Option Reporter} :
    ¬ ∀ announce : Announce, s = reportAfter place r (announce e id outcome) := by
  intro h
  have hone : s = (e, some .pending) := h fun _ _ _ => (e, some .pending)
  have hother : s = (e, some .tooLarge) := h fun _ _ _ => (e, some .tooLarge)
  rw [hone] at hother
  cases hother

/-- A turn raises by itself what it is to raise; only the report of a definition is left out when
an announcement before it raised something. -/
theorem Tells.raised_eq {owner : Option Nat} {raised : Option Fault} {fs : List Fault}
    {is : List Incident} (h : Tells owner c [t] d fs (.turn owner c t raised :: is))
    (ht : t.Direct) (hb : ¬ t.Baseless c) :
    raised = t.fault ∨ raised = none ∧ (t.definition? c).isSome ∧ fs ≠ [] := by
  cases h with
  | alone hc heq rest =>
    left
    have hmute := take_mute ht hb c
    rw [heq] at hmute
    exact hmute
  | @through _ _ _ e id outcome place r c₁ gs js c₂ f _ _ _ _ he heq inner hout rest =>
    rcases reported_cases hout with ⟨hsome, rfl, hown⟩ | ⟨hnone, hown⟩
    · rw [hown]
      cases hdef : t.definition? c with
      | some x =>
        refine Or.inr ⟨rfl, rfl, ?_⟩
        obtain ⟨g, hg⟩ := Option.isSome_iff_exists.mp hsome
        simp [hg]
      | none =>
        left
        cases hf : t.fault with
        | none => rfl
        | some g =>
          obtain ⟨s, hs⟩ := take_fixed hb hdef (hf ▸ nofun)
          exact absurd (fun announce => (hs announce).symm.trans (heq announce)) not_through
    · left
      rw [hown, ← take_mute ht hb c₁, heq, mute]
      rw [hnone] at hout
      exact (congrArg Prod.snd hout).symm

end Own

/-- A load is given up with a fault: nothing is installed, and its waiters are told. -/
inductive Falls (c : Coordinator) (id : Nat) (f : Fault) :
    Coordinator → List Fault → List Incident → Prop where
  | of_ends {e d gs is} (he : Ends c id (some f) e) (hl : ∀ t, Shelves c.desk e.desk t none)
      (h : Tells (some id) (e.forewarn id (some f)) ((e.loadOf id).turns (some f)) d gs is) :
      Falls c id f d gs (.settled id (some f) :: is)

/-- The chronicle of a whole step. -/
inductive Course (c : Coordinator) : Deed → Step → List Incident → Prop where
  | nothing {f} : Course c (.nothing f) (c, f) []
  | queued {tag w id d} (hq : c.desk.Queues tag w id d) :
      Course c (.ask tag w) ({ c with desk := d }, none) []
  | present {tag w d f is} (ht : c.desk.store.contains tag)
      (h : Tells none c [.success w.onSuccess] d (Option.toList f) is) :
      Course c (.ask tag w) (d, f) is
  | turn {t d f is} (h : Tells none c [t] d (Option.toList f) is) : Course c (.turn t) (d, f) is
  | never {id} (h : c.desk.service.timeout.duration.elapses = false) :
      Course c (.expire id) (c, none) []
  | late {id} (hc : ¬ c.desk.store.isCurrent id) : Course c (.expire id) (c.fired id, none) []
  | expired {id seconds f d gs is}
      (hl : c.desk.service.timeout.duration.general? 6 = some seconds)
      (hf : f = .load (c.loadOf id).tag (.timedOut seconds) none)
      (h : Falls (c.fired id) id f d gs is) :
      Course c (.expire id) (d, gather ((c.loadOf id).unhandled (some f)) gs) is

section Course

variable {c : Coordinator} {id : Nat}

theorem tells_take (hs : c.desk.Sound) (t : Turn) :
    ∃ is, Tells none c [t] (take announce c t).1 (take announce c t).2.toList is := by
  obtain ⟨is, h⟩ := tells_fanout hs [t] none
  have hnil : (take announce c t).2.toList ++ [] = (take announce c t).2.toList :=
    List.append_nil _
  exact ⟨is, hnil ▸ h⟩

theorem falls_of_ends {e : Coordinator} {f : Fault} (he : Ends c id (some f) e)
    (hl : ∀ t, Shelves c.desk e.desk t none) :
    ∃ d gs is, announce e id (some f) = (d, gather ((c.loadOf id).unhandled (some f)) gs) ∧
      Falls c id f d gs is := by
  obtain ⟨is, h⟩ := tells_fanout (forewarn_sound he.sound id (some f))
    ((e.loadOf id).turns (some f)) (some id)
  refine ⟨_, _, _, ?_, .of_ends he hl h⟩
  rw [announce_eq he.sound, (h.announced he).unhandled]

theorem course_elapse (hs : c.desk.Sound) (id : Nat) :
    ∃ is, Course c (.expire id) (c.elapse id) is := by
  generalize c.elapse id = s, elapses hs id = h
  cases h with
  | never h => exact ⟨[], .never h⟩
  | late hc => exact ⟨[], .late (mt (isCurrent_fired c id id).mpr hc)⟩
  | ends hl he hshelves =>
    obtain ⟨d, gs, is, hannounce, h⟩ := falls_of_ends he hshelves
    have hwaiters : ((c.fired id).loadOf id).waiters = (c.loadOf id).waiters :=
      ((later_fired c id).desk.load id).waiters
    rw [hannounce, unhandled_congr hwaiters]
    exact ⟨is, .expired hl rfl h⟩

theorem course_perform (hs : c.desk.Sound) (deed : Deed) :
    ∃ is, Course c deed (c.perform deed) is := by
  cases deed with
  | nothing f => exact ⟨[], .nothing⟩
  | ask tag w =>
    rw [perform]
    rcases ensure_cases hs tag w with ⟨ht, heq⟩ | ⟨id, d, heq, hq⟩
    · obtain ⟨is, h⟩ := tells_take hs (.success w.onSuccess)
      exact ⟨is, heq ▸ .present ht h⟩
    · exact ⟨[], heq ▸ .queued hq⟩
  | turn t =>
    obtain ⟨is, h⟩ := tells_take hs t
    exact ⟨is, .turn h⟩
  | expire id => exact course_elapse hs id

/-- The turns that a step takes by itself. -/
inductive Starts (c : Coordinator) : Deed → Turn → Prop where
  | turn {t} : Starts c (.turn t) t
  | present {tag w} (ht : c.desk.store.contains tag) : Starts c (.ask tag w) (.success w.onSuccess)
  | timer {id f t} (ht : t ∈ (c.loadOf id).turns (some f)) : Starts c (.expire id) t

/-- Every turn in the chronicle of a step was taken, for a waiter or by the step itself. -/
theorem Course.scene {deed : Deed} {s : Step} {is : List Incident} {holder : Option Nat}
    {c₁ : Coordinator} {t : Turn} {raised : Option Fault} (h : Course c deed s is)
    (hs : c.desk.Sound) (hm : .turn holder c₁ t raised ∈ is) :
    ∃ owner b ts, Later c b ∧ Scene owner b ts s.1 is holder c₁ t raised ∧
      ∀ u ∈ ts, Starts c deed u := by
  cases h with
  | nothing => exact absurd hm List.not_mem_nil
  | queued => exact absurd hm List.not_mem_nil
  | present ht h =>
    refine ⟨_, c, _, .refl c, h.scene hs hm, fun u hu => ?_⟩
    exact List.mem_singleton.mp hu ▸ .present ht
  | turn h =>
    refine ⟨_, c, _, .refl c, h.scene hs hm, fun u hu => ?_⟩
    exact List.mem_singleton.mp hu ▸ .turn
  | never => exact absurd hm List.not_mem_nil
  | late => exact absurd hm List.not_mem_nil
  | @expired id seconds f d gs is hl hf h =>
    obtain @⟨e, _, _, is, he, -, h⟩ := h
    have ha := h.announced he
    have hfired := later_fired c id
    have hscene := h.scene ha.start ((List.mem_cons.mp hm).resolve_left nofun)
    refine ⟨_, _, _, hfired.trans ha.into, hscene.within (.refl _) (.refl d)
      (List.suffix_cons _ is).isInfix fun _ hu => hu, fun u hu => .timer (f := f) ?_⟩
    rwa [ha.turns, loadOf_eq, turns_congr (hfired.desk.load id).waiters] at hu

end Course

theorem Course.eq_nil {c : Coordinator} {f : Option Fault} {s : Step} {is : List Incident}
    (h : Course c (.nothing f) s is) : is = [] := by
  cases h
  rfl

section Apt

variable {owner holder : Option Nat} {c c₁ d : Coordinator} {t : Turn} {ts : List Turn}
  {w : Waiter Success Failure} {tag : String} {outcome raised : Option Fault}
  {is : List Incident}

theorem mem_map_caller {request : Nat} {g : Option (Given Callback)} :
    ∀ x ∈ g.map (Reporter.caller request), ∃ request g, x = .caller request g := by
  intro x hx
  obtain ⟨g', -, rfl⟩ := Option.map_eq_some_iff.mp hx
  exact ⟨request, g', rfl⟩

theorem Fits.apt (h : Fits c tag w) (ht : w.turn? outcome = some t) (hs : c₁.desk.Sound)
    (ha : outcome = none → c₁.desk.store.contains tag) : t.Direct ∧ ¬ t.Baseless c₁ := by
  cases outcome with
  | none =>
    have hbase := Option.isSome_iff_ne_none.mp (hs.lexicon? (ha rfl))
    obtain rfl := Option.some.inj ht
    cases h with
    | caller => exact ⟨⟨_, _, rfl⟩, nofun⟩
    | definition => exact ⟨mem_map_caller, hbase⟩
    | load => exact ⟨trivial, hbase⟩
  | some f =>
    obtain ⟨x, hx, rfl⟩ := Option.map_eq_some_iff.mp ht
    refine ⟨?_, nofun⟩
    cases h with
    | caller =>
      obtain ⟨g, -, rfl⟩ := Option.map_eq_some_iff.mp hx
      exact ⟨_, _, rfl⟩
    | definition =>
      obtain rfl := Option.some.inj hx
      exact mem_map_caller
    | load =>
      obtain rfl := Option.some.inj hx
      trivial

theorem Fit.apt (h : Fit c) {id : Nat} (ht : t ∈ (c.loadOf id).turns outcome)
    (hs : c₁.desk.Sound) (ha : outcome = none → c₁.desk.store.contains (c.loadOf id).tag) :
    t.Direct ∧ ¬ t.Baseless c₁ := by
  rw [Load.turns_eq] at ht
  obtain ⟨w, hw, hwt⟩ := List.mem_filterMap.mp ht
  exact (h id w hw).apt hwt hs ha

theorem Scene.apt (h : Scene owner c ts d is holder c₁ t raised) (hf : Fit c)
    (hts : t ∈ ts → t.Direct ∧ ¬ t.Baseless c₁) : t.Direct ∧ ¬ t.Baseless c₁ := by
  cases h.origin with
  | given _ ht => exact hts ht
  | waiter _ _ ht ha => exact hf.apt ht h.sound ha

/-- The turns that are taken in a step raise what they are to raise. -/
theorem Scene.raised_eq (h : Scene owner c ts d is holder c₁ t raised) (hf : Fit c)
    (hts : t ∈ ts → t.Direct ∧ ¬ t.Baseless c₁) :
    raised = t.fault ∨
      raised = none ∧ (t.definition? c₁).isSome ∧ (take announce c₁ t).2.isSome := by
  have hapt := h.apt hf hts
  obtain ⟨c₂, f, js, htells, -, -⟩ := h.taken
  rcases htells.raised_eq hapt.1 hapt.2 with hr | ⟨hr, hd, hne⟩
  · exact Or.inl hr
  · refine Or.inr ⟨hr, hd, ?_⟩
    have hfanout := htells.fanout_eq h.sound
    rw [fanout_cons] at hfanout
    have hfaults : (take announce c₁ t).2.toList ++ [] = f.toList := congrArg Prod.snd hfanout
    rw [List.append_nil] at hfaults
    cases htake : (take announce c₁ t).2 with
    | none => exact absurd hfaults.symm (by rw [htake]; exact hne)
    | some g => rfl

end Apt

/-- The books of a step: what it raises, taken apart, is what its incidents raise; it settles the
loads of which its chronicle tells, and the waiters of each of them take their turns in order. -/
structure Accounts (c : Coordinator) (s : Step) (is : List Incident) : Prop where
  faults : Fault.leavesAll s.2.toList = Fault.leavesAll (is.flatMap c.raises)
  quiet : s.2 = none ↔ is.flatMap c.raises = []
  settled : ∀ j, (∃ outcome, .settled j outcome ∈ is) ↔
    c.desk.store.isCurrent j ∧ ¬ s.1.desk.store.isCurrent j
  resolved : ∀ j outcome, .settled j outcome ∈ is → Resolved j outcome c s.1 is
  own : ∀ owner c₁ t raised, .turn owner c₁ t raised ∈ is → raised = t.fault ∨
    raised = none ∧ (t.definition? c₁).isSome ∧ (take announce c₁ t).2.isSome

section Accounts

variable {c d : Coordinator} {t : Turn} {is : List Incident} {deed : Deed} {s : Step}

theorem accounts_of_current
    (hfaults : Fault.leavesAll s.2.toList = Fault.leavesAll (is.flatMap c.raises))
    (hquiet : s.2 = none ↔ is.flatMap c.raises = [])
    (hnever : ∀ j, ¬ c.desk.store.isCurrent j → outcomesOf j is = [])
    (hcurrent : ∀ j, c.desk.store.isCurrent j → s.1.desk.store.isCurrent j ∧ Spared j is ∨
      ∃ outcome, Resolved j outcome c s.1 is)
    (hown : ∀ owner c₁ t raised, .turn owner c₁ t raised ∈ is → raised = t.fault ∨
      raised = none ∧ (t.definition? c₁).isSome ∧ (take announce c₁ t).2.isSome) :
    Accounts c s is := by
  have hresolved : ∀ j outcome, .settled j outcome ∈ is → Resolved j outcome c s.1 is := by
    intro j outcome hm
    have hmem := mem_outcomesOf.mpr hm
    by_cases hj : c.desk.store.isCurrent j
    · rcases hcurrent j hj with ⟨-, hsp⟩ | ⟨o, h⟩
      · rw [hsp.outcomes] at hmem
        exact absurd hmem List.not_mem_nil
      · rw [h.once, List.mem_singleton] at hmem
        exact hmem ▸ h
    · rw [hnever j hj] at hmem
      exact absurd hmem List.not_mem_nil
  refine ⟨hfaults, hquiet, fun j => ⟨?_, ?_⟩, hresolved, hown⟩
  · rintro ⟨outcome, hm⟩
    exact ⟨(hresolved j outcome hm).current, (hresolved j outcome hm).gone⟩
  · rintro ⟨hj, hgone⟩
    rcases hcurrent j hj with ⟨hd, -⟩ | ⟨outcome, h⟩
    · exact absurd hd hgone
    · refine ⟨outcome, mem_outcomesOf.mp ?_⟩
      rw [h.once]
      exact List.mem_singleton_self outcome

theorem accounts_of_still (hcurrent : ∀ j, c.desk.store.isCurrent j → d.desk.store.isCurrent j) :
    Accounts c (d, none) [] := by
  apply accounts_of_current
  · rfl
  · simp
  · exact fun _ _ => rfl
  · exact fun j hj => Or.inl ⟨hcurrent j hj, ⟨rfl, rfl⟩⟩
  · exact fun _ _ _ _ hm => absurd hm List.not_mem_nil

theorem accounts_of_tells {f : Option Fault} (hs : c.desk.Sound) (hf : Fit c)
    (ht : ∀ c₁, c₁.desk.Sound → Later c c₁ → t.Direct ∧ ¬ t.Baseless c₁)
    (h : Tells none c [t] d f.toList is) : Accounts c (d, f) is := by
  apply accounts_of_current
  · exact h.leaves hs
  · rw [← h.quiet hs, Option.toList_eq_nil_iff]
  · exact fun j hj => (h.settled hs hj).1
  · exact fun j hj => h.current hs hj nofun
  · intro owner c₁ t' raised hm
    have hscene := h.scene hs hm
    refine hscene.raised_eq hf fun ht' => ?_
    rw [List.mem_singleton.mp ht']
    exact ht c₁ hscene.sound hscene.before

theorem Falls.current {id j : Nat} {f : Fault} {gs : List Fault} (h : Falls c id f d gs is)
    (hj : c.desk.store.isCurrent j) :
    d.desk.store.isCurrent j ∧ Spared j is ∨ ∃ outcome, Resolved j outcome c d is := by
  obtain @⟨e, _, _, is, he, -, h⟩ := h
  have ha := h.announced he
  by_cases hid : id = j
  · subst hid
    exact Or.inr ⟨some f, h.resolved he⟩
  · have hje : (e.forewarn id (some f)).desk.store.isCurrent j := by
      rw [store_forewarn]
      exact (he.settles.current_other (Ne.symm hid)).mpr hj
    have hpre := spared_settled hid (some f)
    rcases h.current ha.start hje (mt Option.some.inj hid) with ⟨hd, hsp⟩ | ⟨outcome, hr⟩
    · exact Or.inl ⟨hd, hpre.append hsp⟩
    · exact Or.inr ⟨outcome, hr.after ha.into hpre⟩

theorem Course.current {j : Nat} (h : Course c deed s is) (hs : c.desk.Sound)
    (hj : c.desk.store.isCurrent j) :
    s.1.desk.store.isCurrent j ∨ ∃ outcome, Resolved j outcome c s.1 is := by
  cases h with
  | nothing => exact Or.inl hj
  | queued hq => exact Or.inl ((hq.current_iff hs.store (Store.isCurrent_iff.mp hj).1).mpr hj)
  | present _ h => exact (h.current hs hj nofun).imp And.left id
  | turn h => exact (h.current hs hj nofun).imp And.left id
  | never => exact Or.inl hj
  | @late id _ => exact Or.inl ((isCurrent_fired c id j).mpr hj)
  | @expired id seconds f d gs is _ _ h =>
    rcases h.current ((isCurrent_fired c id j).mpr hj) with ⟨hd, -⟩ | ⟨outcome, hr⟩
    · exact Or.inl hd
    · exact Or.inr ⟨outcome, hr.after (later_fired c id) (spared_nil j)⟩

theorem Falls.leaves {id : Nat} {f : Fault} {gs : List Fault} (h : Falls c id f d gs is) :
    Fault.leavesAll (gather ((c.loadOf id).unhandled (some f)) gs).toList =
      Fault.leavesAll (is.flatMap c.raises) := by
  obtain @⟨e, _, _, is, he, -, h⟩ := h
  have ha := h.announced he
  have hleaves := h.leaves ha.start
  rw [ha.into.raises] at hleaves
  rw [Fault.leavesAll_gather, Fault.leavesAll_append, hleaves, List.flatMap_cons, raises,
    Fault.leavesAll_append]

/-- All that is raised in the middle of a step leaves the step. -/
theorem Course.leaves (h : Course c deed s is) (hs : c.desk.Sound) (hne : is ≠ []) :
    Fault.leavesAll s.2.toList = Fault.leavesAll (is.flatMap c.raises) := by
  cases h with
  | nothing => exact absurd rfl hne
  | queued => exact absurd rfl hne
  | present _ h => exact h.leaves hs
  | turn h => exact h.leaves hs
  | never => exact absurd rfl hne
  | late => exact absurd rfl hne
  | @expired id seconds f d gs is _ _ h =>
    have hleaves := h.leaves
    rwa [(later_fired c id).raises, loadOf_eq,
      unhandled_congr ((later_fired c id).desk.load id).waiters] at hleaves

theorem accounts_of_falls {id : Nat} {f : Fault} {gs : List Fault} (hf : Fit c)
    (hfalls : Falls c id f d gs is) :
    Accounts c (d, gather ((c.loadOf id).unhandled (some f)) gs) is := by
  have hcurrent := fun j => hfalls.current (j := j)
  have hleaves := hfalls.leaves
  obtain @⟨e, _, _, is, he, -, h⟩ := hfalls
  have ha := h.announced he
  apply accounts_of_current
  · exact hleaves
  · have hquiet := h.quiet ha.start
    rw [ha.into.raises] at hquiet
    rw [gather_eq_none, hquiet, List.flatMap_cons, raises, List.append_eq_nil_iff,
      Option.toList_eq_nil_iff]
  · intro j hj
    have hne : id ≠ j := by
      rintro rfl
      exact hj he.settles.current
    rw [outcomesOf_settled, if_neg hne]
    exact (h.settled ha.start (mt ha.into.desk.isCurrent hj)).1
  · exact hcurrent
  · intro owner c₁ t raised hm
    have hscene := h.scene ha.start ((List.mem_cons.mp hm).resolve_left (by simp))
    refine hscene.raised_eq (hf.later ha.into) fun ht => ?_
    rw [loadOf_eq, ← store_forewarn e id (some f)] at ht
    exact (hf.later ha.into).apt ht hscene.sound (by simp)

theorem Accounts.earlier {b : Coordinator} (h : Accounts c s is) (hl : Later b c)
    (hcur : ∀ j, c.desk.store.isCurrent j ↔ b.desk.store.isCurrent j) : Accounts b s is where
  faults := hl.raises ▸ h.faults
  quiet := hl.raises ▸ h.quiet
  settled j := by
    rw [← hcur j]
    exact h.settled j
  resolved j outcome hm := (h.resolved j outcome hm).after hl (spared_nil j)
  own := h.own

end Accounts

def Action.Accepted : Action → Prop
  | ensure _ onSuccess onError => Localizer.checkCallbacks onSuccess onError = none
  | define tag data base _ _ =>
    (∃ entries, LexiconData.ofValue data = .ok entries) ∧ base ≠ some tag
  | _ => True

/-- The loader of a load raises a fault that has no text: to write it raises `g`. -/
def Action.Wordless (c : Coordinator) (a : Action) (g : Fault) : Prop :=
  ∃ id f, a = .deliver id (.error f) ∧ (c.loadOf id).fetch = .outstanding ∧ f.text = .error g

section Actions

variable {c : Coordinator} {a : Action} {s : Step} {is : List Incident}

theorem Action.Accepted.deed_ne (h : a.Accepted) (hw : ∀ g, ¬ a.Wordless c g) (f : Fault) :
    a.deed c ≠ .nothing (some f) := by
  cases a with
  | ensure tag onSuccess onError =>
    have hn : Localizer.checkCallbacks onSuccess onError = none := h
    simp [deed, Deed.request, hn]
  | define tag data base onInstalled onFailed =>
    obtain ⟨⟨entries, hd⟩, hb⟩ := h
    cases base with
    | none => simp [deed, Deed.definition, hd]
    | some b =>
      have hne : b ≠ tag := fun he => hb (congrArg some he)
      simp [deed, Deed.definition, hd, hne]
  | install l => simp [deed]
  | deliver id result =>
    intro h
    rcases errand_concludes h with h | ⟨hout, h⟩
    · cases h
    · generalize hx : delivery result = x at h
      cases h with
      | @wordless e g hf => exact hw f ⟨id, e, by rw [delivery_eq_fault.mp hx], hout, hf⟩
      | other => exact absurd hx delivery_ne_other
  | expire id => simp [deed]

theorem Action.Wordless.act_eq {g : Fault} (h : a.Wordless c g) (hs : c.desk.Sound) :
    a.deed c = .nothing (some g) ∧ c.act a = (a.base c, some g) := by
  obtain ⟨id, f, rfl, hout, hf⟩ := h
  have hdeed : Action.deed c (.deliver id (.error f)) = .nothing (some g) := by
    rw [deed, delivery, Deed.errand, if_pos hout, Deed.arrival, hf]
  exact ⟨hdeed, by rw [Coordinator.act_eq hs, hdeed, perform]⟩

/-- A turn that a step takes by itself installs a lexicon, or ends a load. -/
inductive Turn.Outer : Turn → Prop where
  | install {l r} (hr : ∀ x ∈ r, ∃ request g, x = Reporter.caller request g) : Outer (.install l r)
  | finish {id data base} : Outer (.finish id data base)
  | giveUp {id why cause} : Outer (.giveUp id why cause)

theorem Deed.outer_of_errand {id : Nat} {d : Delivery} {t : Turn}
    (h : Deed.errand c id d = .turn t) : t.Outer := by
  rcases errand_concludes h with h | ⟨-, h⟩
  · contradiction
  · cases h with
    | fault => exact .giveUp
    | finish => exact .finish
    | ownBase => exact .giveUp

theorem Action.outer_of_turn {t : Turn} (h : a.deed c = .turn t) : t.Outer := by
  cases a with
  | ensure tag onSuccess onError =>
    simp only [deed, Deed.request] at h
    split at h <;> contradiction
  | define tag data base onInstalled onFailed =>
    simp only [deed, Deed.definition] at h
    split at h
    · contradiction
    · cases h
      exact .install mem_map_caller
    · split at h <;> contradiction
  | install l =>
    cases h
    exact .install (by simp)
  | deliver id result => exact Deed.outer_of_errand h
  | expire id => contradiction

theorem Turn.Outer.apt {t : Turn} (h : t.Outer) (c₁ : Coordinator) :
    t.Direct ∧ ¬ t.Baseless c₁ := by
  cases h with
  | install hr => exact ⟨hr, nofun⟩
  | finish => exact ⟨trivial, nofun⟩
  | giveUp => exact ⟨trivial, nofun⟩

theorem Starts.apt {t : Turn} {c₁ : Coordinator} (h : Starts (a.base c) (a.deed c) t)
    (hf : Fit (a.base c)) (hs : c₁.desk.Sound) (hl : Later (a.base c) c₁) :
    t.Direct ∧ ¬ t.Baseless c₁ := by
  generalize hdeed : a.deed c = deed at h
  cases h with
  | turn => exact (Action.outer_of_turn hdeed).apt c₁
  | @present tag w ht =>
    have hturn : w.turn? none = some (.success w.onSuccess) := rfl
    exact (fits_of_ask hdeed).apt hturn hs fun _ => hl.desk.contains ht
  | timer ht => exact hf.apt ht hs nofun

theorem Deed.definition_ne_expire {tag : String} {data : Value} {base : Option String}
    {installed failed : Option Reporter} {id : Nat} :
    Deed.definition tag data base installed failed ≠ .expire id := by
  unfold definition
  split
  · nofun
  · nofun
  · split <;> nofun

theorem Deed.errand_ne_expire {j id : Nat} {d : Delivery} : Deed.errand c j d ≠ .expire id := by
  intro h
  rcases errand_concludes h with h | ⟨-, h⟩
  · contradiction
  · cases h

theorem Action.eq_of_expire {id : Nat} (h : a.deed c = .expire id) : a = .expire id := by
  cases a with
  | ensure tag onSuccess onError =>
    simp only [deed, Deed.request] at h
    split at h <;> contradiction
  | define => exact absurd h Deed.definition_ne_expire
  | install l => contradiction
  | deliver => exact absurd h Deed.errand_ne_expire
  | expire j =>
    cases h
    rfl

theorem Course.accounts (h : Course (a.base c) (a.deed c) s is) (hs : c.desk.Sound) (hf : Fit c)
    (ha : a.Accepted) (hw : ∀ g, ¬ a.Wordless c g) : Accounts (a.base c) s is := by
  have hsb := (alike_base c a).sound hs
  have hfb := hf.alike (alike_base c a)
  generalize hdeed : a.deed c = deed at h
  cases h with
  | @nothing f =>
    cases f with
    | none => exact accounts_of_still fun _ hj => hj
    | some f => exact absurd hdeed (ha.deed_ne hw f)
  | queued hq =>
    refine accounts_of_still fun j hj => ?_
    exact (hq.current_iff hsb.store (Store.isCurrent_iff.mp hj).1).mpr hj
  | @present tag w _ _ _ ht h =>
    have hstarts : Starts (a.base c) (a.deed c) (.success w.onSuccess) := hdeed ▸ .present ht
    exact accounts_of_tells hsb hfb (fun _ hs₁ hl => hstarts.apt hfb hs₁ hl) h
  | turn h =>
    exact accounts_of_tells hsb hfb (fun c₁ _ _ => (Action.outer_of_turn hdeed).apt c₁) h
  | never => exact accounts_of_still fun _ hj => hj
  | @late id hc => exact accounts_of_still fun j hj => (isCurrent_fired _ id j).mpr hj
  | @expired id seconds f d gs is hl _ h =>
    have hfired := later_fired (a.base c) id
    have hcur := isCurrent_fired (a.base c) id
    have hacc := accounts_of_falls (hfb.later hfired) h
    rw [loadOf_eq, unhandled_congr (hfired.desk.load id).waiters] at hacc
    exact hacc.earlier hfired hcur

end Actions

end Coordinator

end Phrasebook
