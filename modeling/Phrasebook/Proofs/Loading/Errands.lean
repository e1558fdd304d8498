import Phrasebook.Proofs.Loading.Cascade
import Phrasebook.Proofs.Loading.Upshot

/-!
# Running errands

Requests are made, and a loader that answers each tag always in the same way answers the errands of
the loads, in any order; no timer fires. Whatever a step then says of a load is so: a load that it
gives up has the fault that its tag comes to.
-/

namespace Phrasebook

namespace Coordinator

structure Request where
  tag : String
  onSuccess : Callback
  onError : Option Callback

def Request.action (q : Request) : Action :=
  .ensure q.tag (.function q.onSuccess) (q.onError.map .function)

def errands (answer : Answers) (c : Coordinator) : List Nat → List Action
  | [] => []
  | id :: ids =>
    .deliver id (answer (c.loadOf id).tag) ::
      errands answer (c.act (.deliver id (answer (c.loadOf id).tag))).1 ids

/-- A request for a tag of some kind is made, or the loader answers. -/
inductive Routine (answer : Answers) (R : String → Prop) (c : Coordinator) : Action → Prop where
  | request {q : Request} (hq : R q.tag) : Routine answer R c q.action
  | errand {id} : Routine answer R c (.deliver id (answer (c.loadOf id).tag))

def Obeys (answer : Answers) (R : String → Prop) : Coordinator → List Action → Prop
  | _, [] => True
  | c, a :: as => Routine answer R c a ∧ Obeys answer R (c.act a).1 as

section Obeys

variable {answer : Answers} {R : String → Prop} {c : Coordinator}

theorem obeys_append {as bs : List Action} :
    Obeys answer R c (as ++ bs) ↔ Obeys answer R c as ∧ Obeys answer R (run c as) bs := by
  induction as generalizing c with
  | nil => exact ⟨fun h => ⟨trivial, h⟩, fun h => h.2⟩
  | cons a as ih =>
    change _ ∧ Obeys answer R (c.act a).1 (as ++ bs) ↔ (_ ∧ _) ∧ _
    rw [ih, and_assoc]
    rfl

theorem obeys_requests {qs : List Request} (h : ∀ q ∈ qs, R q.tag) :
    Obeys answer R c (qs.map Request.action) := by
  induction qs generalizing c with
  | nil => trivial
  | cons q qs ih =>
    exact ⟨.request (h q List.mem_cons_self), ih fun q hq => h q (List.mem_cons_of_mem _ hq)⟩

theorem obeys_errands (ids : List Nat) : Obeys answer R c (errands answer c ids) := by
  induction ids generalizing c with
  | nil => trivial
  | cons id ids ih => exact ⟨.errand, ih⟩

end Obeys

/-- What a turn says about a load, its resource or its failure, is so. -/
def Turn.Warranted (answer : Answers) (c : Coordinator) : Turn → Prop
  | success (.extendLoad id base data) =>
    base ≠ (c.loadOf id).tag ∧ answer (c.loadOf id).tag = .ok ⟨data, some base⟩
  | failure f (.abandonLoad id base) => Links answer (c.loadOf id).tag base ∧ Fails answer base f
  | finish id data under => under = none ∧ answer (c.loadOf id).tag = .ok ⟨data, none⟩
  | giveUp id why cause => Fails answer (c.loadOf id).tag (.load (c.loadOf id).tag why (some cause))
  | _ => True

section Warranted

variable {answer : Answers} {owner : Option Nat} {c c₀ d e : Coordinator} {t : Turn} {id j : Nat}
  {f g : Fault} {outcome : Option Fault} {ts : List Turn} {fs : List Fault} {is : List Incident}

theorem Turn.Warranted.later (h : t.Warranted answer c) (hl : Later c d) :
    t.Warranted answer d := by
  have htag : ∀ i, (d.loadOf i).tag = (c.loadOf i).tag := fun i => (hl.desk.load i).tag
  unfold Turn.Warranted at h ⊢
  simpa only [htag] using h

theorem contains_of_lexicon? {b : String} (h : c.desk.lexicon? b ≠ none) :
    c.desk.store.contains b := by
  obtain ⟨l, hl⟩ := Option.ne_none_iff_exists'.mp h
  obtain ⟨place, hp, -⟩ := Option.bind_eq_some_iff.mp hl
  exact Option.isSome_of_mem hp

theorem contains_eq_isSome (hs : c.desk.Sound) (b : String) :
    c.desk.store.contains b = (c.desk.lexicon? b).isSome := by
  rw [Bool.eq_iff_iff]
  exact ⟨hs.lexicon?, fun h => contains_of_lexicon? (Option.isSome_iff_ne_none.mp h)⟩

theorem Fells.fails (h : Fells c id t f) (ht : t.Warranted answer c)
    (hloads : ∀ u, c.desk.store.contains u → ∃ l, Loads answer u l) :
    Fails answer (c.loadOf id).tag f := by
  cases h with
  | giveUp => exact ht
  | base =>
    obtain ⟨⟨hb, data, ha⟩, hf⟩ := ht
    exact .base ha hb hf
  | malformed hd hf =>
    obtain ⟨-, ha⟩ := ht
    exact .malformed (.plain ha) hd hf
  | @overlay base data f hd hf hl =>
    obtain ⟨hb, ha⟩ := ht
    obtain ⟨l, hl⟩ := hloads base (contains_of_lexicon? hl)
    exact .malformed (.based ha hb hl) hd hf

/-- Whoever waits for a load waits for its base, so that it hears of its base only. -/
theorem turns_warranted (hf : Fit c) (hi : Inherits (fun t => delivery (answer t)) c.desk)
    (ho : ∀ g ∈ outcome, Fails answer (c.loadOf j).tag g) :
    ∀ t ∈ (c.loadOf j).turns outcome, t.Warranted answer c := by
  intro t ht
  rw [Load.turns_eq] at ht
  obtain ⟨w, hw, hwt⟩ := List.mem_filterMap.mp ht
  have hfollows := hi.waiter hw
  have hfits := hf j w hw
  generalize (c.loadOf j).tag = tag at hfits ho
  cases outcome with
  | none =>
    obtain rfl := Option.some.inj hwt
    cases hfits with
    | caller => trivial
    | definition => trivial
    | load _ hne => exact ⟨hne, delivery_eq_resource.mp hfollows.2⟩
  | some g =>
    obtain ⟨x, hx, rfl⟩ := Option.map_eq_some_iff.mp hwt
    cases hfits with
    | caller =>
      obtain ⟨_, -, rfl⟩ := Option.map_eq_some_iff.mp hx
      trivial
    | definition =>
      obtain rfl := Option.some.inj hx
      trivial
    | load _ hne =>
      obtain rfl := Option.some.inj hx
      exact ⟨⟨hne, _, delivery_eq_resource.mp hfollows.2⟩, ho g rfl⟩

theorem Tells.fails (h : Tells owner c ts d fs is) (hs : c.desk.Sound) (hf : Fit c₀)
    (hi : Inherits (fun t => delivery (answer t)) c₀.desk) (hl : Later c₀ c) (hd : Later d e)
    (hloads : ∀ u, e.desk.store.contains u → ∃ l, Loads answer u l)
    (hts : ∀ t ∈ ts, t.Warranted answer c₀) :
    .settled j (some g) ∈ is → Fails answer (c₀.loadOf j).tag g := by
  have htag : ∀ {c}, Later c₀ c → ∀ i, (c.loadOf i).tag = (c₀.loadOf i).tag :=
    fun hl i => (hl.desk.load i).tag
  induction h with
  | nil => exact fun hm => absurd hm List.not_mem_nil
  | alone hc _ _ ih =>
    intro hm
    exact ih hc.sound (hl.trans hc.later) hd (fun t ht => hts t (List.mem_cons_of_mem _ ht))
      ((List.mem_cons.mp hm).resolve_left nofun)
  | @through _ c t e' id outcome place r c₁ gs js c₂ f ts d _ is he heq inner hout rest ihin ih =>
    intro hm
    have hp := inner.passes hs he heq hout
    obtain ⟨-, hlast⟩ := rest.keeps hp.sound
    -- whatever is installed now is installed in the end
    have hnow : ∀ {x}, Later x c₁ → ∀ u, x.desk.store.contains u → ∃ l, Loads answer u l :=
      fun hx u hu => hloads u ((hx.trans (hp.outer.trans (hlast.trans hd))).desk.contains hu)
    have hfails : ∀ g ∈ outcome, Fails answer (c₀.loadOf id).tag g := by
      rintro g ⟨rfl⟩
      have ht := (hts t List.mem_cons_self).later hl
      have hfell := (fells_of_through hs heq).fails ht (hnow (hp.into.trans hp.inner))
      rwa [htag hl] at hfell
    rcases List.mem_cons.mp ((List.mem_cons.mp hm).resolve_left nofun) with hm | hm
    · cases hm
      exact hfails g rfl
    · rcases List.mem_append.mp hm with hm | hm
      · refine ihin hp.start (hl.trans hp.into) (hp.outer.trans (hlast.trans hd)) ?_ hm
        intro t ht
        rw [hp.turns, loadOf_eq, turns_congr (hl.desk.load id).waiters] at ht
        exact turns_warranted hf hi hfails t ht
      · exact ih hp.sound (hl.trans hp.later) hd (fun t ht => hts t (List.mem_cons_of_mem _ ht)) hm

theorem Course.fails {deed : Deed} {s : Step} (h : Course c deed s is) (hs : c.desk.Sound)
    (hf : Fit c) (hi : Inherits (fun t => delivery (answer t)) c.desk)
    (hdeed : ∀ t, Starts c deed t → t.Warranted answer c) (hne : ∀ id, deed ≠ .expire id)
    (hloads : ∀ u, s.1.desk.store.contains u → ∃ l, Loads answer u l)
    (hm : .settled j (some g) ∈ is) : Fails answer (c.loadOf j).tag g := by
  have htells : ∀ {t d fs}, Starts c deed t → Tells none c [t] d fs is →
      (∀ u, d.desk.store.contains u → ∃ l, Loads answer u l) →
        Fails answer (c.loadOf j).tag g := by
    intro t d fs ht h hloads
    refine h.fails hs hf hi (.refl c) (.refl d) hloads (fun u hu => ?_) hm
    exact List.mem_singleton.mp hu ▸ hdeed t ht
  cases h with
  | nothing => exact absurd hm List.not_mem_nil
  | queued => exact absurd hm List.not_mem_nil
  | present ht h => exact htells (.present ht) h hloads
  | turn h => exact htells .turn h hloads
  | never => exact absurd rfl (hne _)
  | late => exact absurd rfl (hne _)
  | expired => exact absurd rfl (hne _)

end Warranted

section Routine

variable {answer : Answers} {R : String → Prop} {c : Coordinator} {a : Action} {t : Turn}
  {id : Nat}

theorem Request.deed_eq (q : Request) (c : Coordinator) :
    q.action.deed c = .ask q.tag
      (callerWaiter c.client.requests (.function q.onSuccess) (q.onError.map .function)) := by
  obtain ⟨tag, f, _ | g⟩ := q
  · rfl
  · rfl

theorem Request.base_eq (q : Request) (c : Coordinator) : q.action.base c = c.numbered := by
  obtain ⟨tag, f, _ | g⟩ := q
  · rfl
  · rfl

theorem Routine.accepted (ha : Routine answer R c a) : a.Accepted := by
  cases ha with
  | @request q =>
    obtain ⟨tag, f, _ | g⟩ := q
    · rfl
    · rfl
  | errand => trivial

theorem Routine.ne_expire (ha : Routine answer R c a) (id : Nat) : a ≠ .expire id := by
  cases ha with
  | request => nofun
  | errand => nofun

theorem errand_warranted
    (ht : Starts (c.heard id) (.errand c id (delivery (answer (c.loadOf id).tag))) t) :
    t.Warranted answer (c.heard id) := by
  have htag := (alike_heard c id).tag id
  generalize hdeed : Deed.errand c id (delivery (answer (c.loadOf id).tag)) = deed at ht
  rcases errand_concludes hdeed with rfl | ⟨-, h⟩
  · cases ht
  · rw [← htag] at h
    generalize hx : delivery (answer ((c.heard id).loadOf id).tag) = x at h
    cases h with
    | fault hf =>
      cases ht
      exact .raised (delivery_eq_fault.mp hx) hf
    | wordless => cases ht
    | other => cases ht
    | finish =>
      cases ht
      exact ⟨rfl, delivery_eq_resource.mp hx⟩
    | ownBase =>
      cases ht
      have ha := delivery_eq_resource.mp hx
      rw [← htag] at ha ⊢
      exact .own ha
    | base hb =>
      cases ht
      rw [← htag] at hb
      exact ⟨hb, delivery_eq_resource.mp hx⟩

theorem Routine.warranted (ha : Routine answer R c a) (ht : Starts (a.base c) (a.deed c) t) :
    t.Warranted answer (a.base c) := by
  cases ha with
  | @request q =>
    rw [q.deed_eq] at ht
    cases ht
    trivial
  | errand => exact errand_warranted ht

end Routine

end Coordinator

end Phrasebook
