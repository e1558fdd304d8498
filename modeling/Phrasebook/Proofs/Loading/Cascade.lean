import Mathlib.Logic.Relation
import Phrasebook.Proofs.Loading.Account
import Phrasebook.Proofs.Loading.Orphan

/-!
# Failures pass on

A load that fails takes down every load that waits for it, directly or through others, and no other
load; it does so once even if the loads wait for each other in a circle. The fault of each of them
has the fault of its base as its cause, down to the one that came first.
-/

namespace Phrasebook

namespace Coordinator

/-- The turns that give up a load with a fault, if the load is current. -/
inductive Fells (c : Coordinator) (id : Nat) : Turn → Fault → Prop where
  | giveUp {why cause} :
      Fells c id (.giveUp id why cause) (.load (c.loadOf id).tag why (some cause))
  | base {base f} : Fells c id (.failure f (.abandonLoad id base))
      (.load (c.loadOf id).tag (.baseFailed base) (some f))
  | malformed {data under f} (hd : LexiconData.ofValue data = .error f) (hf : f.isShape) :
      Fells c id (.finish id data under)
        (.load (c.loadOf id).tag (.failed f.message) (some (.data f)))
  | overlay {base data f} (hd : LexiconData.ofValue data = .error f) (hf : f.isShape)
      (hb : c.desk.lexicon? base ≠ none) :
      Fells c id (.success (.extendLoad id base data))
        (.load (c.loadOf id).tag (.failed f.message) (some (.data f)))

section Fells

variable {c e : Coordinator} {t : Turn} {id j place : Nat} {f g : Fault} {r : Option Reporter}

theorem failLoad_fells (hs : c.desk.Sound) (hc : c.desk.store.isCurrent id) (why : LoadFailure)
    (cause : Fault) :
    ∃ e, Ends c id (some (.load (c.loadOf id).tag why (some cause))) e ∧
      (∀ u, Shelves c.desk e.desk u none) ∧ ∀ announce, failLoad announce c id why cause =
        announce e id (some (.load (c.loadOf id).tag why (some cause))) := by
  obtain ⟨d, hd, he⟩ := giveUp_current hs hc (c.loadOf id).tag cause why
  refine ⟨_, he, fun u => ?_, fun announce => ?_⟩
  · have hl := shelves_giveUp hc (c.loadOf id).tag cause u
    rwa [hd] at hl
  · simp only [failLoad, hd]

theorem Fells.take (h : Fells c id t f) (hs : c.desk.Sound) (hc : c.desk.store.isCurrent id) :
    ∃ e, Ends c id (some f) e ∧ (∀ u, Shelves c.desk e.desk u none) ∧
      ∀ announce, take announce c t = announce e id (some f) := by
  cases h with
  | giveUp => exact failLoad_fells hs hc _ _
  | @base base f =>
    let c' := c.note (.baseFailed (c.loadOf id).tag base f.message)
    have hs' : c'.desk.Sound := ⟨hs.store, hs.shelved, hs.awaits⟩
    obtain ⟨e, he, hl, heq⟩ := failLoad_fells (c := c') hs' hc (.baseFailed base) f
    have hd := he.later.desk
    refine ⟨e, ⟨he.settles, ⟨⟨hd.service, hd.calls, hd.shelf, hd.contains, hd.length, hd.load,
      hd.pending, hd.size⟩, he.later.client⟩, he.sound, he.arrived, he.error, he.client⟩, hl, heq⟩
  | @malformed data under f hd hf =>
    obtain ⟨e, he, hl, heq⟩ := failLoad_fells hs hc (.failed f.message) (.data f)
    refine ⟨e, he, hl, fun announce => ?_⟩
    simp only [Coordinator.take, finish, hd, hf, if_true, heq]
  | @overlay base data f hd hf hb =>
    obtain ⟨l, hl⟩ := Option.ne_none_iff_exists'.mp hb
    obtain ⟨e, he, hshelves, heq⟩ := failLoad_fells hs hc (.failed f.message) (.data f)
    refine ⟨e, he, hshelves, fun announce => ?_⟩
    simp only [Coordinator.take, succeed, hl, finish, hd, hf, if_true, heq]

theorem through_unique {e' : Coordinator} {o o' : Option Fault}
    (h : ∀ announce : Announce, announce e id o = reportAfter place r (announce e' j o')) :
    e' = e ∧ j = id ∧ o' = o ∧ ∀ s, reportAfter place r s = s := by
  classical
  have hall : ∀ s, reportAfter place r s = s := fun s => (h fun _ _ _ => s).symm
  by_cases heq : e' = e ∧ j = id ∧ o' = o
  · exact ⟨heq.1, heq.2.1, heq.2.2, hall⟩
  · let mark : Announce := fun x i p =>
      if x = e' ∧ i = j ∧ p = o' then (e, some .pending) else (e, some .tooLarge)
    have hne : ¬ (e = e' ∧ id = j ∧ o = o') := fun h => heq ⟨h.1.symm, h.2.1.symm, h.2.2.symm⟩
    have hmark := h mark
    simp [mark, hne, reportAfter] at hmark

def failing (f : Fault) : Announce := fun c _ outcome => (c, outcome.map fun _ => f)

theorem not_through_failure (h : ∀ f f', take (failing f) c t = take (failing f') c t) :
    ¬ ∀ announce, take announce c t = reportAfter place r (announce e id (some g)) := by
  intro heq
  have hone : take (failing .pending) c t = (e, some .pending) := heq _
  have hother : take (failing .tooLarge) c t = (e, some .tooLarge) := heq _
  rw [h .pending .tooLarge, hother] at hone
  cases hone

theorem install_failing (c : Coordinator) (l : Lexicon) (r : Option Reporter) (f f' : Fault) :
    Coordinator.install (failing f) c l r = Coordinator.install (failing f') c l r := by
  simp only [Coordinator.install]
  rcases c.desk.install l with ⟨place, _ | id, d⟩ <;> rfl

theorem failLoad_failing (hc : ¬ c.desk.store.isCurrent id) (why : LoadFailure) (cause : Fault)
    (f f' : Fault) :
    failLoad (failing f) c id why cause = failLoad (failing f') c id why cause := by
  simp only [failLoad, giveUp_late hc]

/-- Data are malformed, and it can be told how. -/
def Malformed (data : Value) : Prop :=
  ∃ f, LexiconData.ofValue data = .error f ∧ f.isShape

theorem finish_failing {data : Value} (make : LexiconData → Lexicon)
    (h : ¬ c.desk.store.isCurrent id ∨ ¬ Malformed data) (f f' : Fault) :
    finish (failing f) c id data make = finish (failing f') c id data make := by
  unfold finish
  cases hd : LexiconData.ofValue data with
  | ok entries =>
    simp only [installLoaded]
    rcases c.desk.installLoaded id (c.loadOf id).tag (make entries) with ⟨_ | _, d⟩ <;> rfl
  | error g =>
    by_cases hg : g.isShape
    · have hc := h.resolve_right fun hn => hn ⟨g, hd, hg⟩
      simp only [hg, if_true]
      exact failLoad_failing hc _ _ f f'
    · simp [hg]

theorem fells_of_through (hs : c.desk.Sound)
    (heq : ∀ announce, take announce c t = reportAfter place r (announce e id (some f))) :
    Fells c id t f := by
  have hfell : ∀ {j g}, Fells c j t g → c.desk.store.isCurrent j → Fells c id t f := by
    intro j g hj hc
    obtain ⟨e', -, -, heq'⟩ := hj.take hs hc
    obtain ⟨-, rfl, ho, -⟩ :=
      through_unique fun announce => (heq' announce).symm.trans (heq announce)
    exact Option.some.inj ho ▸ hj
  have hnot := fun h => not_through_failure (t := t) h heq
  have hfinish : ∀ j data make, (Malformed data → ∃ g, Fells c j t g) →
      (∀ announce, take announce c t = finish announce c j data make) → Fells c id t f := by
    intro j data make hm ht
    by_cases hc : c.desk.store.isCurrent j ∧ Malformed data
    · obtain ⟨g, hg⟩ := hm hc.2
      exact hfell hg hc.1
    · refine absurd (fun g g' => ?_) hnot
      rw [ht, ht]
      exact finish_failing make (not_and_or.mp hc) g g'
  cases t with
  | success s =>
    cases s with
    | listener l => exact absurd (fun _ _ => rfl) hnot
    | extendLoad j base data =>
      cases hl : c.desk.lexicon? base with
      | none =>
        refine absurd (fun g g' => ?_) hnot
        simp only [Coordinator.take, succeed, hl]
      | some l =>
        refine hfinish j data (l.derive (c.loadOf j).tag) ?_ fun announce => ?_
        · rintro ⟨g, hd, hg⟩
          exact ⟨_, .overlay hd hg (by simp [hl])⟩
        · simp only [Coordinator.take, succeed, hl]
    | extendDefinition tag base data r' =>
      refine absurd (fun g g' => ?_) hnot
      simp only [Coordinator.take, succeed]
      cases c.desk.lexicon? base with
      | none => rfl
      | some l => exact install_failing c _ r' g g'
  | failure g w =>
    cases w with
    | listener l => exact absurd (fun _ _ => rfl) hnot
    | abandonLoad j base =>
      by_cases hc : c.desk.store.isCurrent j
      · exact hfell .base hc
      · refine absurd (fun g g' => ?_) hnot
        exact failLoad_failing (c := c.note _) hc _ _ g g'
    | abandonDefinition tag base r' => exact absurd (fun _ _ => rfl) hnot
  | install l r' => exact absurd (fun g g' => install_failing c l r' g g') hnot
  | finish j data under =>
    refine hfinish j data _ ?_ fun _ => rfl
    rintro ⟨g, hd, hg⟩
    exact ⟨_, .malformed hd hg⟩
  | giveUp j why cause =>
    by_cases hc : c.desk.store.isCurrent j
    · exact hfell .giveUp hc
    · exact absurd (fun g g' => failLoad_failing hc why cause g g') hnot

end Fells

/-- A current load waits for another one as its base. -/
def Leans (c : Coordinator) (j i : Nat) : Prop :=
  c.desk.store.isCurrent j ∧ ∃ base data, Waits c j base data i

/-- The fault of a load that is taken down with a root: its cause is the fault of its base, and so
on until the fault of the root. -/
inductive Stems (c : Coordinator) (root : Nat) (f : Fault) : Nat → Fault → Prop where
  | root : Stems c root f root f
  | base {j i base data g} (hj : c.desk.store.isCurrent j) (hw : Waits c j base data i)
      (h : Stems c root f i g) :
      Stems c root f j (.load (c.loadOf j).tag (.baseFailed base) (some g))

/-- A turn by which a failure is passed on. -/
def Bears (c : Coordinator) (root : Nat) (f : Fault) (t : Turn) : Prop :=
  ∃ g w, t = .failure g w ∧ ∀ j base, w = .abandonLoad j base → c.desk.store.isCurrent j →
    Stems c root f j (.load (c.loadOf j).tag (.baseFailed base) (some g))

section Stems

open Relation

variable {c d : Coordinator} {root j : Nat} {f g : Fault}

theorem Stems.leans (h : Stems c root f j g) : ReflTransGen (Leans c) j root := by
  induction h with
  | root => exact .refl
  | base hj hw _ ih => exact .head ⟨hj, _, _, hw⟩ ih

theorem fits_abandonLoad {tag base : String} {w : Waiter Success Failure} (h : Fits c tag w)
    (hw : w.onError = some (.abandonLoad j base)) :
    base = tag ∧ tag ≠ (c.loadOf j).tag ∧ ∃ data, w = loadWaiter j tag data := by
  cases h with
  | caller =>
    obtain ⟨g, -, hg⟩ := Option.map_eq_some_iff.mp hw
    contradiction
  | definition => cases hw
  | @load i data hid ht =>
    cases hw
    exact ⟨rfl, ht, data, rfl⟩

theorem waits_of_onError {i : Nat} {base : String} (hf : Fit c) (hi : c.desk.store.isCurrent i)
    (hm : .abandonLoad j base ∈ (c.loadOf i).onError) : ∃ data, Waits c j base data i := by
  rw [(c.loadOf i).onError_eq] at hm
  obtain ⟨w, hw, he⟩ := List.mem_filterMap.mp hm
  obtain ⟨rfl, hne, data, rfl⟩ := fits_abandonLoad (hf i w hw) he
  exact ⟨data, waits_of_waiter hi rfl hne hw⟩

theorem bears_turns {i : Nat} (hf : Fit c) (hi : c.desk.store.isCurrent i)
    (h : Stems c root f i g) : ∀ t ∈ (c.loadOf i).turns (some g), Bears c root f t := by
  intro t ht
  obtain ⟨w, hw, rfl⟩ := List.mem_map.mp ht
  refine ⟨g, w, rfl, ?_⟩
  rintro j base rfl hj
  obtain ⟨data, hwaits⟩ := waits_of_onError hf hi hw
  exact .base hj hwaits h

end Stems

/-- No lexicon is installed, replaced or taken away. -/
structure Untouched (c d : Coordinator) : Prop where
  shelf : d.desk.shelf = c.desk.shelf
  installed : d.desk.store.installed = c.desk.store.installed

section Untouched

variable {c d e : Coordinator} {owner : Option Nat} {root id place : Nat} {f g : Fault}
  {w : Failure} {r : Option Reporter} {outcome : Option Fault} {ts : List Turn} {fs : List Fault}
  {is : List Incident}

theorem Untouched.trans (h : Untouched c d) (k : Untouched d e) : Untouched c e :=
  ⟨k.shelf.trans h.shelf, k.installed.trans h.installed⟩

theorem untouched_of_shelves (h : ∀ u, Shelves c.desk d.desk u none) : Untouched c d :=
  ⟨(h "").1.trans (List.append_nil _), (h "").2⟩

theorem untouched_forewarn (c : Coordinator) (id : Nat) (outcome : Option Fault) :
    Untouched c (c.forewarn id outcome) := by
  obtain ⟨n, hn⟩ := forewarn_cases c id outcome
  rw [hn]
  exact ⟨rfl, rfl⟩

theorem abandonLoad_late {j : Nat} (hc : ¬ c.desk.store.isCurrent j) (base : String) (g : Fault) :
    ∃ n, ∀ announce, take announce c (.failure g (.abandonLoad j base)) =
      ({ c with desk := { c.desk with notices := n } }, none) := by
  have hc' : ¬ (c.note (.baseFailed (c.loadOf j).tag base g.message)).desk.store.isCurrent j := hc
  simp only [take, fail, failLoad, giveUp_late hc']
  exact ⟨_, fun _ => rfl⟩

theorem untouched_alone (hs : c.desk.Sound) (g : Fault) (w : Failure) {s : Step}
    (h : ∀ announce, take announce c (.failure g w) = s) : Untouched c s.1 := by
  cases w with
  | listener l =>
    obtain rfl := h announce
    exact ⟨rfl, rfl⟩
  | abandonLoad j base =>
    by_cases hc : c.desk.store.isCurrent j
    · have hfell : Fells c j (.failure g (.abandonLoad j base)) _ := .base
      obtain ⟨e, -, hl, heq⟩ := hfell.take hs hc
      obtain rfl := (heq (failing g)).symm.trans (h (failing g))
      exact untouched_of_shelves hl
    · obtain ⟨n, hn⟩ := abandonLoad_late hc base g
      obtain rfl := (hn announce).symm.trans (h announce)
      exact ⟨rfl, rfl⟩
  | abandonDefinition tag base r =>
    obtain rfl := h announce
    cases r <;> exact ⟨rfl, rfl⟩

theorem abandoned_of_through (hs : c.desk.Sound)
    (heq : ∀ announce,
      take announce c (.failure g w) = reportAfter place r (announce e id outcome)) :
    (∃ base, w = .abandonLoad id base ∧ c.desk.store.isCurrent id ∧
      outcome = some (.load (c.loadOf id).tag (.baseFailed base) (some g))) ∧ Untouched c e ∧
      ∀ s, reportAfter place r s = s := by
  cases w with
  | listener l => exact absurd heq not_through
  | abandonLoad j base =>
    by_cases hc : c.desk.store.isCurrent j
    · have hfell : Fells c j (.failure g (.abandonLoad j base)) _ := .base
      obtain ⟨e', -, hl, heq'⟩ := hfell.take hs hc
      obtain ⟨rfl, rfl, rfl, hall⟩ :=
        through_unique fun announce => (heq' announce).symm.trans (heq announce)
      exact ⟨⟨base, rfl, hc, rfl⟩, untouched_of_shelves hl, hall⟩
    · obtain ⟨n, hn⟩ := abandonLoad_late hc base g
      exact absurd (fun announce => (hn announce).symm.trans (heq announce)) not_through
  | abandonDefinition tag base r' => exact absurd heq not_through

/-- Turns by which a failure is passed on settle loads that fail with it, and install nothing. -/
theorem Tells.bears {c₀ : Coordinator} (h : Tells owner c ts d fs is) (hs : c.desk.Sound)
    (hf : Fit c₀) (hl : Later c₀ c) (hts : ∀ t ∈ ts, Bears c₀ root f t) :
    Untouched c d ∧ ∀ j o, .settled j o ∈ is → ∃ g, o = some g ∧ Stems c₀ root f j g := by
  induction h with
  | nil => exact ⟨⟨rfl, rfl⟩, nofun⟩
  | alone hc heq _ ih =>
    obtain ⟨g, w, rfl, -⟩ := hts _ List.mem_cons_self
    obtain ⟨hu, hst⟩ := ih hc.sound (hl.trans hc.later) fun t ht =>
      hts t (List.mem_cons_of_mem _ ht)
    refine ⟨(untouched_alone hs g w heq).trans hu, fun j o hm => ?_⟩
    exact hst j o ((List.mem_cons.mp hm).resolve_left nofun)
  | @through owner c t e id outcome place r c₁ gs js c₂ f' ts d fs is he heq inner hout _ ihin ih =>
    obtain ⟨g, w, rfl, hbears⟩ := hts _ List.mem_cons_self
    have hp := inner.passes hs he heq hout
    obtain ⟨⟨base, rfl, hc, rfl⟩, hue, hall⟩ := abandoned_of_through hs heq
    have hst : Stems c₀ root f id (.load (c.loadOf id).tag (.baseFailed base) (some g)) := by
      rw [loadOf_eq, (hl.desk.load id).tag]
      exact hbears id base rfl (hl.desk.isCurrent hc)
    obtain ⟨huin, hin⟩ := ihin hp.start (hl.trans hp.into) fun t ht => by
      rw [hp.turns, loadOf_eq, turns_congr (hl.desk.load id).waiters] at ht
      exact bears_turns hf (hl.desk.isCurrent hc) hst t ht
    obtain ⟨hu, hrest⟩ := ih hp.sound (hl.trans hp.later) fun t ht =>
      hts t (List.mem_cons_of_mem _ ht)
    have hc₂ : c₁ = c₂ := congrArg Prod.fst ((hall _).symm.trans hout)
    have huin := (hue.trans (untouched_forewarn e id _)).trans huin
    refine ⟨huin.trans (hc₂ ▸ hu), fun j o hm => ?_⟩
    rcases List.mem_cons.mp ((List.mem_cons.mp hm).resolve_left nofun) with hm | hm
    · cases hm
      exact ⟨_, rfl, hst⟩
    · rcases List.mem_append.mp hm with hm | hm
      · exact hin j o hm
      · exact hrest j o hm

end Untouched

/-- What comes of the failure of a load: it and all current loads that wait for it, directly or
through others, are settled, each with a fault that goes back to the first one; each of their
waiters is told once and in order, and nothing else happens. -/
structure Cascade (c : Coordinator) (root : Nat) (f : Fault) (d : Coordinator)
    (is : List Incident) : Prop where
  fallen : ∀ j, (∃ o, .settled j o ∈ is) ↔ Relation.ReflTransGen (Leans c) j root
  told : ∀ j o, .settled j o ∈ is → Resolved j o c d is
  cause : ∀ j o, .settled j o ∈ is → ∃ g, o = some g ∧ Stems c root f j g
  current : ∀ j, d.desk.store.isCurrent j ↔
    c.desk.store.isCurrent j ∧ ¬ Relation.ReflTransGen (Leans c) j root
  waiters : ∀ j, (d.loadOf j).waiters = (c.loadOf j).waiters
  untouched : Untouched c d

section Cascade

open Relation

variable {c d : Coordinator} {root : Nat} {f : Fault} {gs : List Fault} {is : List Incident}

theorem Falls.cascade (h : Falls c root f d gs is) (hf : Fit c) :
    Cascade c root f d is := by
  have hacc := accounts_of_falls hf h
  obtain @⟨e, _, _, is, he, hl, h⟩ := h
  have ha := h.announced he
  have hstart : ∀ t ∈ (e.loadOf root).turns (some f), Bears c root f t := by
    rw [ha.turns]
    exact bears_turns hf he.settles.current .root
  obtain ⟨hu, hst⟩ := h.bears ha.start hf ha.into hstart
  have hcause : ∀ j o, .settled j o ∈ .settled root (some f) :: is →
      ∃ g, o = some g ∧ Stems c root f j g := by
    intro j o hm
    rcases List.mem_cons.mp hm with hm | hm
    · cases hm
      exact ⟨f, rfl, .root⟩
    · exact hst j o hm
  have hgone : ∀ j, ReflTransGen (Leans c) j root → ¬ d.desk.store.isCurrent j := by
    intro j hj
    induction hj using ReflTransGen.head_induction_on with
    | refl => exact (hacc.resolved root (some f) List.mem_cons_self).gone
    | @head j i hji _ ih =>
      obtain ⟨hj, base, data, hw⟩ := hji
      obtain ⟨o, ho⟩ := (hacc.settled i).mpr ⟨hw.current, ih⟩
      obtain ⟨g, rfl, -⟩ := hcause i o ho
      -- the load that was waited for told this one that it failed
      obtain ⟨c₁, raised, hm⟩ := (hacc.resolved i _ ho).turn hw.waiter rfl
      have hscene := h.scene ha.start ((List.mem_cons.mp hm).resolve_left nofun)
      intro hd
      rcases freed hscene.sound rfl (hscene.after.desk.isCurrent hd) with hn | hn
      · exact hn.elim
      · exact hn.elim
  have hcurrent : ∀ j, ReflTransGen (Leans c) j root → c.desk.store.isCurrent j := by
    intro j hj
    rcases ReflTransGen.cases_head hj with rfl | ⟨i, hji, -⟩
    · exact he.settles.current
    · exact hji.1
  have hlater : Later c d := ha.into.trans ha.inner
  have hfallen : ∀ j, (∃ o, .settled j o ∈ .settled root (some f) :: is) ↔
      ReflTransGen (Leans c) j root := by
    intro j
    constructor
    · rintro ⟨o, ho⟩
      obtain ⟨g, -, hg⟩ := hcause j o ho
      exact hg.leans
    · intro hj
      exact (hacc.settled j).mpr ⟨hcurrent j hj, hgone j hj⟩
  refine ⟨hfallen, hacc.resolved, hcause, fun j => ⟨fun hd => ?_, ?_⟩, fun j => ?_, ?_⟩
  · exact ⟨hlater.desk.isCurrent hd, fun hj => hgone j hj hd⟩
  · rintro ⟨hc, hn⟩
    by_contra hd
    exact hn ((hfallen j).mp ((hacc.settled j).mpr ⟨hc, hd⟩))
  · exact (hlater.desk.load j).waiters
  · exact ((untouched_of_shelves hl).trans (untouched_forewarn e root _)).trans hu

/-- A turn that fells a load is all about the failure of that load. -/
theorem Tells.falls {owner : Option Nat} {t : Turn} {raised : Option Fault}
    (h : Tells owner c [t] d gs (.turn owner c t raised :: is)) (hs : c.desk.Sound)
    (hc : c.desk.store.isCurrent root) (hfell : Fells c root t f) :
    ∃ fs, Falls c root f d fs is := by
  obtain ⟨e, he, hl, heq⟩ := hfell.take hs hc
  cases h with
  | alone hcalm heq' rest =>
    have hconst : ∀ announce : Announce, _ = reportAfter 0 none (announce e root (some f)) :=
      fun announce =>
        ((heq' announce).symm.trans (heq announce)).trans (reportAfter_none 0 _).symm
    exact absurd hconst not_through
  | through he' heq' inner hout rest =>
    obtain ⟨rfl, rfl, rfl, hall⟩ :=
      through_unique fun announce => (heq announce).symm.trans (heq' announce)
    obtain rfl := congrArg Prod.fst ((hall _).symm.trans hout)
    cases rest
    rw [List.append_nil]
    exact ⟨_, .of_ends he hl inner⟩

theorem Tells.felled {owner : Option Nat} {ts : List Turn} {j : Nat} {g : Fault}
    (h : Tells owner c ts d gs is) (hs : c.desk.Sound) (hm : .settled j (some g) ∈ is) :
    ∃ holder c₁ t raised, .turn holder c₁ t raised ∈ is ∧ c₁.desk.store.isCurrent j ∧
      Fells c₁ j t g := by
  induction h with
  | nil => exact absurd hm List.not_mem_nil
  | alone hc heq _ ih =>
    obtain ⟨holder, c₁, t, raised, hmem, h⟩ :=
      ih hc.sound ((List.mem_cons.mp hm).resolve_left nofun)
    exact ⟨holder, c₁, t, raised, List.mem_cons_of_mem _ hmem, h⟩
  | through he heq inner hout _ ihin ih =>
    have hp := inner.passes hs he heq hout
    rcases List.mem_cons.mp ((List.mem_cons.mp hm).resolve_left nofun) with hm | hm
    · cases hm
      exact ⟨_, _, _, _, List.mem_cons_self, he.settles.current, fells_of_through hs heq⟩
    · rcases List.mem_append.mp hm with hm | hm
      · obtain ⟨holder, c₁, t, raised, hmem, h⟩ := ihin hp.start hm
        exact ⟨holder, c₁, t, raised, by simp [hmem], h⟩
      · obtain ⟨holder, c₁, t, raised, hmem, h⟩ := ih hp.sound hm
        exact ⟨holder, c₁, t, raised, by simp [hmem], h⟩

section Course

variable {s : Step} {t : Turn} {id : Nat}

theorem Tells.head {owner : Option Nat} {ts : List Turn} (h : Tells owner c (t :: ts) d gs is) :
    ∃ raised js, is = .turn owner c t raised :: js := by
  cases h with
  | alone => exact ⟨_, _, rfl⟩
  | through => exact ⟨_, _, rfl⟩

theorem Course.falls (h : Course c (.turn t) s is) (hs : c.desk.Sound)
    (hc : c.desk.store.isCurrent id) (hfell : Fells c id t f) :
    ∃ raised js gs, is = .turn none c t raised :: js ∧ Falls c id f s.1 gs js := by
  cases h with
  | turn h =>
    obtain ⟨raised, js, rfl⟩ := h.head
    obtain ⟨gs, hfalls⟩ := h.falls hs hc hfell
    exact ⟨raised, js, gs, rfl, hfalls⟩

theorem Course.timed (h : Course c (.expire id) s is) (hc : c.desk.store.isCurrent id)
    (hl : c.desk.service.timeout.duration.elapses) :
    ∃ seconds gs, c.desk.service.timeout.duration.general? 6 = some seconds ∧
      Falls (c.fired id) id (.load (c.loadOf id).tag (.timedOut seconds) none) s.1 gs is := by
  cases h with
  | never hn => exact absurd (hn.symm.trans hl) nofun
  | late hn => exact absurd hc hn
  | expired hl hf h => exact ⟨_, _, hl, hf ▸ h⟩

theorem Course.felled {deed : Deed} {j : Nat} {g : Fault} (h : Course c deed s is)
    (hs : c.desk.Sound) (hm : .settled j (some g) ∈ is) : deed = .expire j ∨
      ∃ owner c₁ t raised, .turn owner c₁ t raised ∈ is ∧ c₁.desk.store.isCurrent j ∧
        Fells c₁ j t g := by
  cases h with
  | nothing => exact absurd hm List.not_mem_nil
  | queued => exact absurd hm List.not_mem_nil
  | present _ h => exact Or.inr (h.felled hs hm)
  | turn h => exact Or.inr (h.felled hs hm)
  | never => exact absurd hm List.not_mem_nil
  | late => exact absurd hm List.not_mem_nil
  | expired _ _ h =>
    obtain ⟨he, -, h⟩ := h
    rcases List.mem_cons.mp hm with hm | hm
    · cases hm
      exact Or.inl rfl
    · obtain ⟨owner, c₁, t, raised, hmem, h⟩ := h.felled (h.announced he).start hm
      exact Or.inr ⟨owner, c₁, t, raised, List.mem_cons_of_mem _ hmem, h⟩

theorem take_unreadable (h : t.Unreadable) (hb : ¬ t.Baseless c) (announce : Announce) :
    take announce c t = (c, some (.data .longNumber)) := by
  cases t with
  | success s =>
    cases s with
    | extendLoad id base data =>
      have hd : LexiconData.ofValue data = .error .longNumber := h
      cases hl : c.desk.lexicon? base with
      | none => exact absurd hl hb
      | some l => simp [take, succeed, finish, hl, hd, LexiconData.Fault.isShape]
    | _ => exact h.elim
  | finish id data base =>
    have hd : LexiconData.ofValue data = .error .longNumber := h
    simp [take, finish, hd, LexiconData.Fault.isShape]
  | _ => exact h.elim

theorem Course.unreadable {a : Action} {owner : Option Nat} {c₁ : Coordinator}
    {raised : Option Fault} (h : Course (a.base c) (a.deed c) s is) (hs : (a.base c).desk.Sound)
    (hf : Fit (a.base c)) (hm : .turn owner c₁ t raised ∈ is) (ht : t.Unreadable) :
    take announce c₁ t = (c₁, some (.data .longNumber)) := by
  obtain ⟨holder, b, ts, hl, hscene, hstarts⟩ := h.scene hs hm
  have hapt := hscene.apt (hf.later hl) fun hgiven =>
    (hstarts t hgiven).apt hf hscene.sound (hl.trans hscene.before)
  exact take_unreadable ht hapt.2 announce

end Course

end Cascade

end Coordinator

end Phrasebook
