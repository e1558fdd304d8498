import Mathlib.Data.Finset.Card
import Phrasebook.Proofs.Loading.Answer
import Phrasebook.Proofs.Loading.Errands

/-!
# The ledger of a loader

What is known of the loads while only requests are made and errands answered: which ones were
started and for which tags, what the settled ones came to, and how often the loader was called. A
step starts one load at most, ends one errand at most, and settles loads as their tags have it.
-/

namespace Phrasebook

namespace Coordinator

def Begun (c : Coordinator) (t : String) : Prop :=
  ∃ j, j < c.desk.store.loads.length ∧ (c.loadOf j).tag = t

open Classical in
/-- What the loader answers for the tags that a load was started for. -/
noncomputable def known (answer : Answers) (c : Coordinator) (t : String) : Delivery :=
  if Begun c t then delivery (answer t) else .other

def served (c : Coordinator) (t : String) : Finset Nat :=
  {j ∈ Finset.range c.desk.store.loads.length |
    (c.loadOf j).tag = t ∧ (c.loadOf j).fetch = .finished}

/-- A load that was started is the newest one. Its tag was neither there nor pending. -/
structure Newly (P : String → Prop) (c d : Coordinator) (j : Nat) : Prop where
  place : j = c.desk.store.loads.length
  fetch : (d.loadOf j).fetch = .outstanding
  standing : (d.loadOf j).standing = .waiting
  absent : ¬ c.desk.store.contains (d.loadOf j).tag
  first : c.desk.store.pending.get? (d.loadOf j).tag = none
  asked : P (d.loadOf j).tag

/-- What a deed does to the loads that there are, and which ones it starts. -/
structure Grows (b : Coordinator) (deed : Deed) (d : Coordinator) : Prop where
  length : b.desk.store.loads.length ≤ d.desk.store.loads.length
  tag : ∀ {j}, j < b.desk.store.loads.length → (d.loadOf j).tag = (b.loadOf j).tag
  fetch : ∀ {j}, j < b.desk.store.loads.length → (d.loadOf j).fetch = (b.loadOf j).fetch
  started : ∀ {j}, b.desk.store.loads.length ≤ j → j < d.desk.store.loads.length →
    Newly (fun t => ∃ w, deed = .ask t w) b d j
  contains : ∀ {t}, b.desk.store.contains t → d.desk.store.contains t
  calls : d.desk.calls = b.desk.calls
  asked : ∀ {t w}, deed = .ask t w → d.desk.store.contains t ∨ Begun d t

section Grows

variable {answer : Answers} {b c d : Coordinator} {a : Action} {deed : Deed} {id j : Nat}
  {t : String}

theorem lt_of_standing (h : (c.loadOf j).standing ≠ .waiting) :
    j < c.desk.store.loads.length :=
  Decidable.byContradiction fun hlt => h (congrArg Load.standing (loadOf_of_not_lt hlt))

@[simp] theorem mem_served :
    j ∈ served c t ↔ (c.loadOf j).tag = t ∧ (c.loadOf j).fetch = .finished := by
  rw [served, Finset.mem_filter, Finset.mem_range, and_iff_right_iff_imp]
  exact fun h => lt_of_fetch (h.2 ▸ nofun)

theorem Later.grows (hl : Later b d)
    (hasked : ∀ {t w}, deed = .ask t w → d.desk.store.contains t ∨ Begun d t) :
    Grows b deed d where
  length := Nat.le_of_eq hl.desk.length.symm
  tag _ := (hl.desk.load _).tag
  fetch _ := (hl.desk.load _).fetch
  started hle hlt := absurd hle (Nat.not_le_of_lt (hl.desk.length ▸ hlt))
  contains := hl.desk.contains
  calls := hl.desk.calls
  asked := hasked

theorem calls_ensure (hs : b.desk.Sound) (t : String) (w : Waiter Success Failure) :
    (faultOf (b.ensure t w)).1.desk.calls = b.desk.calls := by
  unfold ensure Store.register
  by_cases ht : b.desk.store.contains t
  · simp only [if_pos ht]
    have hl := (take_keeps hs (.success w.onSuccess)).2.desk.calls
    rw [take] at hl
    generalize succeed announce b w.onSuccess = s at hl
    rcases s with ⟨d, _ | f⟩
    · exact hl
    · exact hl
  · simp only [if_neg ht]
    cases b.desk.store.pending.get? t <;> rfl

theorem grows_ask (hs : b.desk.Sound) (hl : b.desk.service.hasLoader) (t : String)
    (w : Waiter Success Failure) : Grows b (.ask t w) (b.perform (.ask t w)).1 := by
  have hcalls := calls_ensure hs t w
  rw [perform]
  rcases ensure_cases hs t w with ⟨ht, heq⟩ | ⟨q, d, heq, hq⟩
  · rw [heq]
    have hlater := (take_keeps hs (.success w.onSuccess)).2
    refine hlater.grows ?_
    rintro u w' ⟨rfl⟩
    exact Or.inl (hlater.desk.contains ht)
  · rw [heq] at hcalls ⊢
    refine ⟨hq.length_le, hq.tag_eq hs.store, hq.fetch_eq, fun {j} hle hlt => ?_, fun ht => ?_,
      hcalls, ?_⟩
    · have hj : j = q := ((hq.length j).mp hlt).resolve_left (Nat.not_lt_of_le hle)
      subst hj
      have hnew : b.desk.store.pending.get? t = none ∧ j = b.desk.store.loads.length := by
        rcases hq.was with hp | hn
        · exact absurd (hs.store.pending_load hp).1 (Nat.not_lt_of_le hle)
        · exact hn
      have htag : (({ b with desk := d } : Coordinator).loadOf j).tag = t := hq.tag
      exact ⟨hnew.2, hq.started hnew.2 hl, hq.standing, htag ▸ hq.absent, htag ▸ hnew.1,
        w, by rw [htag]⟩
    · rw [Store.contains, hq.installed]
      exact ht
    · rintro u w' ⟨rfl⟩
      exact Or.inr ⟨q, (hq.length q).mpr (Or.inr rfl), hq.tag⟩

theorem grows_perform (hs : b.desk.Sound) (hl : b.desk.service.hasLoader) (deed : Deed) :
    Grows b deed (b.perform deed).1 := by
  cases deed with
  | ask t w => exact grows_ask hs hl t w
  | nothing => exact (Later.refl b).grows nofun
  | turn t => exact (take_keeps hs t).2.grows nofun
  | expire id =>
    rcases perform_cases hs (.expire id) with h | ⟨_, _, _, _, h, -⟩
    · exact h.grows nofun
    · contradiction

theorem fetch_heard (c : Coordinator) (id j : Nat) :
    ((c.heard id).loadOf j).fetch = (c.loadOf j).fetch ∨
      j = id ∧ (c.loadOf j).fetch = .outstanding ∧ ((c.heard id).loadOf j).fetch = .finished := by
  unfold heard
  split
  · rename_i hout
    rcases Store.load_modify_cases c.desk.store id (fun l => { l with fetch := .finished }) j with
      h | ⟨rfl, h⟩
    · exact Or.inl (congrArg Load.fetch h)
    · exact Or.inr ⟨rfl, hout, congrArg Load.fetch h⟩
  · exact Or.inl rfl

theorem calls_heard (h : ∀ t, c.desk.calls.count (t, c.desk.service.baseUrl) = (served c t).card)
    (id : Nat) (t : String) :
    (c.heard id).desk.calls.count (t, c.desk.service.baseUrl) = (served (c.heard id) t).card := by
  have halike := alike_heard c id
  by_cases hout : (c.loadOf id).fetch = .outstanding
  · have hcalls : (c.heard id).desk.calls =
        c.desk.calls ++ [((c.loadOf id).tag, c.desk.service.baseUrl)] := by
      rw [heard, if_pos hout]
      rfl
    have hfetch : ((c.heard id).loadOf id).fetch = .finished := by
      have hself := Store.load_modify_self (s := c.desk.store)
        (fun l => { l with fetch := .finished }) (lt_of_outstanding hout)
      rw [heard, if_pos hout]
      exact congrArg Load.fetch hself
    rw [hcalls, List.count_append, h]
    by_cases ht : (c.loadOf id).tag = t
    · have hinsert : served (c.heard id) t = insert id (served c t) := by
        ext j
        rw [mem_served, Finset.mem_insert, mem_served, halike.tag]
        rcases fetch_heard c id j with hj | ⟨rfl, hj, hf⟩
        · rw [hj]
          refine ⟨Or.inr, fun h => h.resolve_left ?_⟩
          rintro rfl
          exact absurd (hj.symm.trans hfetch) (hout ▸ nofun)
        · simp [ht, hf]
      have hnew : id ∉ served c t := by simp [hout]
      rw [hinsert, Finset.card_insert_of_notMem hnew, ht]
      simp
    · have hsame : served (c.heard id) t = served c t := by
        ext j
        rw [mem_served, mem_served, halike.tag]
        rcases fetch_heard c id j with hj | ⟨rfl, -, -⟩
        · rw [hj]
        · simp [ht]
      rw [hsame]
      simp [ht]
  · rw [heard, if_neg hout]
    exact h t

end Grows

/-- A load that was settled was installed, or given up with the fault that its tag comes to. -/
inductive Concluded (answer : Answers) (c : Coordinator) (j : Nat) : Prop where
  | installed (hj : (c.loadOf j).standing = .installed)
      (ht : c.desk.store.contains (c.loadOf j).tag)
  | abandoned {f} (hj : (c.loadOf j).standing = .abandoned)
      (hf : Fails answer (c.loadOf j).tag f)

def Sought (c : Coordinator) (t : String) : Prop := c.desk.store.contains t ∨ Begun c t

structure Advances (answer : Answers) (R : String → Prop) (c d : Coordinator) : Prop where
  length : c.desk.store.loads.length ≤ d.desk.store.loads.length
  contains : ∀ {t}, c.desk.store.contains t → d.desk.store.contains t
  tag : ∀ {j}, j < c.desk.store.loads.length → (d.loadOf j).tag = (c.loadOf j).tag
  started : ∀ {j}, c.desk.store.loads.length ≤ j → j < d.desk.store.loads.length → Newly R c d j
  fetch : ∀ {j}, j < c.desk.store.loads.length → (d.loadOf j).fetch = (c.loadOf j).fetch ∨
    (d.loadOf j).fetch = .finished ∧ ∀ b, Links answer (c.loadOf j).tag b → Sought d b
  standing : ∀ {j}, j < c.desk.store.loads.length →
    (d.loadOf j).standing = (c.loadOf j).standing ∨
      (c.loadOf j).standing = .waiting ∧ Concluded answer d j

/-- What holds of the loads when only requests are made and errands answered. -/
structure Ledger (answer : Answers) (R : String → Prop) (c : Coordinator) : Prop where
  fit : Fit c
  inherits : Inherits (known answer c) c.desk
  concluded : ∀ {j}, (c.loadOf j).standing ≠ .waiting → Concluded answer c j
  sent : ∀ {j}, j < c.desk.store.loads.length → (c.loadOf j).fetch ≠ .unset
  reached : ∀ {j}, j < c.desk.store.loads.length → R (c.loadOf j).tag
  single : ∀ {i j}, i < c.desk.store.loads.length → j < c.desk.store.loads.length →
    (c.loadOf i).tag = (c.loadOf j).tag → (c.loadOf i).standing ≠ .abandoned →
    (c.loadOf j).standing ≠ .abandoned → i = j
  based : ∀ {j b}, (c.loadOf j).fetch = .finished → Links answer (c.loadOf j).tag b → Sought c b
  served : ∀ t, c.desk.calls.count (t, c.desk.service.baseUrl) = (served c t).card

section Known

variable {answer answer' : String → Delivery} {d : Desk Success Failure}

theorem Inherits.widen (h : Inherits answer d)
    (hw : ∀ {t r}, answer t = .resource r → answer' t = .resource r) : Inherits answer' d where
  founded := by
    intro t place hp
    obtain ⟨base, entries, under, ⟨data, ha, hd⟩, hunder, hplace⟩ := h.founded t place hp
    exact ⟨base, entries, under, ⟨data, hw ha, hd⟩, hunder, hplace⟩
  waiter {j w} hm := by
    have hfollows := h.waiter hm
    cases hx : w.onSuccess with
    | listener => trivial
    | extendLoad =>
      rw [hx] at hfollows
      exact ⟨hfollows.1, hw hfollows.2⟩
    | extendDefinition =>
      rw [hx] at hfollows
      exact hfollows

variable {answer : Answers} {c : Coordinator} {t : String}

theorem known_of_begun (h : Begun c t) : known answer c t = delivery (answer t) := if_pos h

theorem begun_of_known {r : Resource} (h : known answer c t = .resource r) :
    Begun c t ∧ delivery (answer t) = .resource r := by
  unfold known at h
  split at h
  · rename_i ht
    exact ⟨ht, h⟩
  · contradiction

end Known

section Step

variable {answer : Answers} {R : String → Prop} {c d : Coordinator} {a : Action} {id j : Nat}
  {t b : String}

theorem Begun.mono (hle : c.desk.store.loads.length ≤ d.desk.store.loads.length)
    (htag : ∀ {j}, j < c.desk.store.loads.length → (d.loadOf j).tag = (c.loadOf j).tag)
    (h : Begun c t) : Begun d t := by
  obtain ⟨j, hj, ht⟩ := h
  exact ⟨j, Nat.lt_of_lt_of_le hj hle, (htag hj).trans ht⟩

theorem Alike.begun (h : Alike c d) : Begun d t ↔ Begun c t := by
  simp only [Begun, h.length, h.tag]

theorem links_of_errand {w : Waiter Success Failure}
    (h : Deed.errand c id (delivery (answer (c.loadOf id).tag)) = .ask b w) :
    Links answer (c.loadOf id).tag b := by
  obtain ⟨-, hb, data, hx, -⟩ := ask_of_errand h
  exact ⟨hb, data, delivery_eq_resource.mp hx⟩

theorem errand_of_links (hout : (c.loadOf id).fetch = .outstanding)
    (h : Links answer (c.loadOf id).tag b) :
    ∃ w, Deed.errand c id (delivery (answer (c.loadOf id).tag)) = .ask b w := by
  obtain ⟨hb, data, ha⟩ := h
  refine ⟨loadWaiter id b data, ?_⟩
  rw [Deed.errand, if_pos hout, ha, delivery, Deed.arrival, if_neg hb]

theorem grows_act (hs : c.desk.Sound) (hl : c.desk.service.hasLoader) (a : Action) :
    Grows (a.base c) (a.deed c) (c.act a).1 := by
  have halike := alike_base c a
  rw [act_eq hs]
  exact grows_perform (halike.sound hs) (halike.service ▸ hl) _

/-- A step starts a load only for a tag that it asks for, and that is neither there nor pending. -/
theorem newly_act (hs : c.desk.Sound) (hl : c.desk.service.hasLoader) {a : Action}
    (hle : c.desk.store.loads.length ≤ j) (hlt : j < (c.act a).1.desk.store.loads.length) :
    Newly (fun t => ∃ w, a.deed c = .ask t w) c (c.act a).1 j := by
  have halike := alike_base c a
  have hnew := (grows_act hs hl a).started (halike.length ▸ hle) hlt
  refine ⟨hnew.place.trans halike.length, hnew.fetch, hnew.standing, ?_, ?_, hnew.asked⟩
  · rw [Store.contains, ← halike.installed]
    exact hnew.absent
  · rw [← halike.pending]
    exact hnew.first

theorem begun_act (hs : c.desk.Sound) (hl : c.desk.service.hasLoader) (a : Action)
    (h : Begun c t) : Begun (c.act a).1 t :=
  have hgrows := grows_act hs hl a
  ((alike_base c a).begun.mpr h).mono hgrows.length hgrows.tag

theorem Routine.inherits (ha : Routine answer R c a) (hs : c.desk.Sound)
    (hl : c.desk.service.hasLoader) (h : Inherits (known answer c) c.desk) :
    Inherits (known answer (c.act a).1) (c.act a).1.desk := by
  have hmono : ∀ {t r}, known answer c t = .resource r →
      known answer (c.act a).1 t = .resource r := by
    intro t r hk
    obtain ⟨ht, hd⟩ := begun_of_known hk
    rwa [known_of_begun (begun_act hs hl a ht)]
  refine Inherits.widen ?_ hmono
  cases ha with
  | @request q =>
    obtain ⟨tag, f, err⟩ := q
    change Inherits _ (c.act (.ensure tag (.function f) (err.map .function))).1.desk
    rw [act_ensure f err]
    exact inherits_ensure (c := c.numbered) hs h tag trivial
  | errand =>
    rw [act]
    split
    · rename_i hout
      rw [← known_of_begun ⟨_, lt_of_outstanding hout, rfl⟩]
      exact inherits_deliver hs h hout
    · exact h

theorem Inherits.answered (h : Inherits (known answer c) c.desk) :
    Inherits (fun t => delivery (answer t)) c.desk :=
  h.widen fun hk => (begun_of_known hk).2

theorem Routine.inherits_base (ha : Routine answer R c a)
    (h : Inherits (fun t => delivery (answer t)) c.desk) :
    Inherits (fun t => delivery (answer t)) (a.base c).desk := by
  cases ha with
  | @request q =>
    rw [q.base_eq]
    exact h
  | @errand id =>
    rw [Action.base, heard]
    split
    · exact inherits_answered h
    · exact h

/-- A step of the routine that settles a load has its books, and what is given up in it fails as its
tag does. -/
theorem Routine.accounts (ha : Routine answer R c a) (hs : c.desk.Sound)
    (hl : c.desk.service.hasLoader) (hf : Fit c) (hi : Inherits (known answer c) c.desk)
    (hc : c.desk.store.isCurrent id) (hgone : ¬ (c.act a).1.desk.store.isCurrent id) :
    ∃ is, Course (a.base c) (a.deed c) (c.act a) is ∧ Accounts (a.base c) (c.act a) is ∧
      ∀ {j g}, .settled j (some g) ∈ is → Fails answer (c.loadOf j).tag g := by
  have halike := alike_base c a
  obtain ⟨is, h⟩ := course_perform (halike.sound hs) (a.deed c)
  rw [← act_eq hs] at h
  have hwords : ∀ g, ¬ a.Wordless c g := by
    intro g hw
    rw [(hw.act_eq hs).2] at hgone
    exact hgone ((halike.isCurrent id).mpr hc)
  have hne : ∀ id, a.deed c ≠ .expire id := fun id he => ha.ne_expire id (Action.eq_of_expire he)
  have hloads : ∀ u, (c.act a).1.desk.store.contains u → ∃ l, Loads answer u l := by
    intro u hu
    obtain ⟨l, -, hloads⟩ := loads_of_contains (ha.inherits hs hl hi).answered.founded hu
    exact ⟨l, hloads⟩
  refine ⟨is, h, h.accounts hs hf ha.accepted hwords, fun {j g} hm => ?_⟩
  rw [← halike.tag]
  exact h.fails (halike.sound hs) (hf.alike halike) (ha.inherits_base hi.answered)
    (fun t ht => ha.warranted ht) hne hloads hm

end Step

section Books

variable {answer : Answers} {R : String → Prop} {b c d : Coordinator} {a : Action} {deed : Deed}
  {id i j : Nat} {t u : String}

theorem Concluded.mono (h : Concluded answer c j)
    (hs : (d.loadOf j).standing = (c.loadOf j).standing)
    (ht : (d.loadOf j).tag = (c.loadOf j).tag)
    (hc : ∀ {t}, c.desk.store.contains t → d.desk.store.contains t) : Concluded answer d j := by
  cases h with
  | installed hj hin =>
    refine .installed (hs.trans hj) ?_
    rw [ht]
    exact hc hin
  | abandoned hj hf => exact .abandoned (hs.trans hj) (ht ▸ hf)

theorem Grows.served (h : Grows c deed d) (t : String) : served d t = served c t := by
  ext j
  rw [mem_served, mem_served]
  constructor
  · rintro ⟨htag, hf⟩
    by_cases hj : j < c.desk.store.loads.length
    · exact ⟨(h.tag hj).symm.trans htag, (h.fetch hj).symm.trans hf⟩
    · have hnew := h.started (Nat.le_of_not_lt hj) (lt_of_fetch (hf ▸ nofun))
      exact absurd (hnew.fetch.symm.trans hf) nofun
  · rintro ⟨htag, hf⟩
    have hj : j < c.desk.store.loads.length := lt_of_fetch (hf ▸ nofun)
    exact ⟨(h.tag hj).trans htag, (h.fetch hj).trans hf⟩

theorem Routine.standing (ha : Routine answer R c a) (hs : c.Sound)
    (hl : c.desk.service.hasLoader) (h : Ledger answer R c)
    (hj : j < c.desk.store.loads.length) :
    ((c.act a).1.loadOf j).standing = (c.loadOf j).standing ∨
      (c.loadOf j).standing = .waiting ∧ Concluded answer (c.act a).1 j := by
  have halike := alike_base c a
  have htag := (grows_act hs.desk hl a).tag (halike.length ▸ hj)
  have hs' : (c.act a).1.Sound := Driver.sound_step (d := driver) hs a
  by_cases hc : (c.loadOf j).standing = .waiting
  · by_cases hd : ((c.act a).1.loadOf j).standing = .waiting
    · exact Or.inl (hd.trans hc.symm)
    · have hcur := hs.desk.store.isCurrent_iff.mpr ⟨hj, hc⟩
      have hgone : ¬ (c.act a).1.desk.store.isCurrent j := fun hn =>
        hd (hs'.desk.store.isCurrent_iff.mp hn).2
      obtain ⟨is, -, hacc, hfails⟩ := ha.accounts hs.desk hl h.fit h.inherits hcur hgone
      obtain ⟨outcome, hm⟩ := (hacc.settled j).mpr ⟨(halike.isCurrent j).mpr hcur, hgone⟩
      have hres := hacc.resolved j outcome hm
      refine Or.inr ⟨hc, ?_⟩
      cases outcome with
      | none =>
        refine .installed hres.standing ?_
        rw [htag]
        exact hres.arrived rfl
      | some g =>
        refine .abandoned hres.standing (f := g) ?_
        rw [htag, halike.tag]
        exact hfails hm
  · obtain ⟨N, hm, -⟩ := move_act hs.desk a
    obtain ⟨p, hp, hlater, -⟩ := hm.prepares hs
    have hstand := hp.standing hj
    exact Or.inl (((hlater.desk.load j).standing (hstand ▸ hc)).trans hstand)

theorem Routine.reached (ha : Routine answer R c a) (h : Ledger answer R c)
    (hR : ∀ {t u}, R t → Links answer t u → R u) {w : Waiter Success Failure}
    (hd : a.deed c = .ask t w) : R t := by
  cases ha with
  | @request q hq =>
    rw [q.deed_eq] at hd
    cases hd
    exact hq
  | errand =>
    obtain ⟨hout, -⟩ := ask_of_errand hd
    exact hR (h.reached (lt_of_outstanding hout)) (links_of_errand hd)

theorem Routine.fetch_base (ha : Routine answer R c a) (j : Nat) :
    ((a.base c).loadOf j).fetch = (c.loadOf j).fetch ∨
      a = .deliver j (answer (c.loadOf j).tag) ∧ (c.loadOf j).fetch = .outstanding ∧
        ((a.base c).loadOf j).fetch = .finished := by
  cases ha with
  | @request q =>
    rw [q.base_eq]
    exact Or.inl rfl
  | @errand id =>
    rcases fetch_heard c id j with h | ⟨rfl, h⟩
    · exact Or.inl h
    · exact Or.inr ⟨rfl, h⟩

theorem Routine.served_act (ha : Routine answer R c a) (hs : c.Sound)
    (hl : c.desk.service.hasLoader)
    (h : ∀ t, c.desk.calls.count (t, c.desk.service.baseUrl) = (served c t).card) (t : String) :
    (c.act a).1.desk.calls.count (t, (c.act a).1.desk.service.baseUrl) =
      (served (c.act a).1 t).card := by
  have hgrows := grows_act hs.desk hl a
  have hservice : (c.act a).1.desk.service = c.desk.service :=
    Driver.service_step (d := driver) hs a
  rw [hgrows.served, hservice, hgrows.calls]
  cases ha with
  | @request q =>
    rw [q.base_eq]
    exact h t
  | @errand id => exact calls_heard h id t

theorem Routine.advances (ha : Routine answer R c a) (hs : c.Sound)
    (hl : c.desk.service.hasLoader) (hR : ∀ {t u}, R t → Links answer t u → R u)
    (h : Ledger answer R c) : Advances answer R c (c.act a).1 := by
  have halike := alike_base c a
  have hgrows := grows_act hs.desk hl a
  have hcontains : ∀ t, (a.base c).desk.store.contains t = c.desk.store.contains t := by
    intro t
    rw [Store.contains, halike.installed, Store.contains]
  refine ⟨halike.length ▸ hgrows.length, fun {t} ht => hgrows.contains ((hcontains t).trans ht),
    fun {j} hj => ?_, fun {j} hle hlt => ?_, fun {j} hj => ?_, fun hj => ha.standing hs hl h hj⟩
  · exact (hgrows.tag (halike.length ▸ hj)).trans (halike.tag j)
  · have hnew := newly_act hs.desk hl hle hlt
    obtain ⟨w, hw⟩ := hnew.asked
    exact { hnew with asked := ha.reached h hR hw }
  · rw [hgrows.fetch (halike.length ▸ hj)]
    rcases ha.fetch_base j with hsame | ⟨rfl, hout, hfin⟩
    · exact Or.inl hsame
    · refine Or.inr ⟨hfin, fun b hb => ?_⟩
      obtain ⟨w, hw⟩ := errand_of_links hout hb
      exact hgrows.asked hw

end Books

section Advances

variable {answer : Answers} {R : String → Prop} {c d : Coordinator} {i j : Nat} {t b : String}

theorem Advances.cases (h : Advances answer R c d) (hj : j < d.desk.store.loads.length) :
    j < c.desk.store.loads.length ∨ Newly R c d j := by
  by_cases hold : j < c.desk.store.loads.length
  · exact Or.inl hold
  · exact Or.inr (h.started (Nat.le_of_not_lt hold) hj)

theorem Advances.concluded (h : Advances answer R c d) (hc : Ledger answer R c)
    (hj : (d.loadOf j).standing ≠ .waiting) : Concluded answer d j := by
  rcases h.cases (lt_of_standing hj) with hold | hnew
  · rcases h.standing hold with hsame | ⟨-, hend⟩
    · exact (hc.concluded (hsame ▸ hj)).mono hsame (h.tag hold) h.contains
    · exact hend
  · exact absurd hnew.standing hj

theorem Advances.sent (h : Advances answer R c d) (hc : Ledger answer R c)
    (hj : j < d.desk.store.loads.length) : (d.loadOf j).fetch ≠ .unset := by
  rcases h.cases hj with hold | hnew
  · rcases h.fetch hold with hsame | ⟨hfin, -⟩
    · exact hsame ▸ hc.sent hold
    · exact hfin ▸ nofun
  · exact hnew.fetch ▸ nofun

theorem Advances.reached (h : Advances answer R c d) (hc : Ledger answer R c)
    (hj : j < d.desk.store.loads.length) : R (d.loadOf j).tag := by
  rcases h.cases hj with hold | hnew
  · exact h.tag hold ▸ hc.reached hold
  · exact hnew.asked

theorem Advances.based (h : Advances answer R c d) (hc : Ledger answer R c)
    (hj : (d.loadOf j).fetch = .finished) (hb : Links answer (d.loadOf j).tag b) : Sought d b := by
  have hlt : j < d.desk.store.loads.length := lt_of_fetch (by rw [hj]; nofun)
  rcases h.cases hlt with hold | hnew
  · rw [h.tag hold] at hb
    rcases h.fetch hold with hsame | ⟨-, hsought⟩
    · exact (hc.based (hsame ▸ hj) hb).imp h.contains (Begun.mono h.length h.tag)
    · exact hsought b hb
  · exact absurd (hnew.fetch.symm.trans hj) nofun

theorem Advances.not_abandoned (h : Advances answer R c d) (hj : j < c.desk.store.loads.length)
    (hn : (d.loadOf j).standing ≠ .abandoned) : (c.loadOf j).standing ≠ .abandoned := by
  intro hc
  rcases h.standing hj with hsame | ⟨hw, -⟩
  · exact hn (hsame.trans hc)
  · exact absurd (hc.symm.trans hw) nofun

theorem Ledger.abandoned (h : Ledger answer R c) (hs : c.desk.Sound)
    (hj : j < c.desk.store.loads.length) (ht : ¬ c.desk.store.contains (c.loadOf j).tag)
    (hp : c.desk.store.pending.get? (c.loadOf j).tag = none) :
    (c.loadOf j).standing = .abandoned := by
  by_cases hw : (c.loadOf j).standing = .waiting
  · have hcur := hs.store.isCurrent_iff.mpr ⟨hj, hw⟩
    exact absurd (hp.symm.trans (Store.isCurrent_iff.mp hcur).2) nofun
  · cases h.concluded hw with
    | installed _ hin => exact absurd hin ht
    | abandoned hj _ => exact hj

/-- When a load is started, the others of its tag were abandoned. -/
theorem Advances.first (h : Advances answer R c d) (hc : Ledger answer R c) (hs : c.desk.Sound)
    (hi : i < c.desk.store.loads.length) (hj : Newly R c d j)
    (ht : (d.loadOf i).tag = (d.loadOf j).tag) : (d.loadOf i).standing = .abandoned := by
  have habsent := hj.absent
  have hfirst := hj.first
  rw [← ht, h.tag hi] at habsent hfirst
  by_contra hn
  exact h.not_abandoned hi hn (hc.abandoned hs hi habsent hfirst)

theorem Advances.single (h : Advances answer R c d) (hc : Ledger answer R c) (hs : c.desk.Sound)
    (hi : i < d.desk.store.loads.length) (hj : j < d.desk.store.loads.length)
    (ht : (d.loadOf i).tag = (d.loadOf j).tag) (hni : (d.loadOf i).standing ≠ .abandoned)
    (hnj : (d.loadOf j).standing ≠ .abandoned) : i = j := by
  rcases h.cases hi with hoi | hnewi
  · rcases h.cases hj with hoj | hnewj
    · rw [h.tag hoi, h.tag hoj] at ht
      exact hc.single hoi hoj ht (h.not_abandoned hoi hni) (h.not_abandoned hoj hnj)
    · exact absurd (h.first hc hs hoi hnewj ht) hni
  · rcases h.cases hj with hoj | hnewj
    · exact absurd (h.first hc hs hoj hnewi ht.symm) hnj
    · exact hnewi.place.trans hnewj.place.symm

end Advances

section Run

variable {answer : Answers} {R : String → Prop} {c : Coordinator} {a : Action}

theorem Ledger.act (h : Ledger answer R c) (hs : c.Sound) (hl : c.desk.service.hasLoader)
    (hR : ∀ {t u}, R t → Links answer t u → R u) (ha : Routine answer R c a) :
    Ledger answer R (c.act a).1 := by
  have hadv := ha.advances hs hl hR h
  exact ⟨fit_act hs.desk h.fit a, ha.inherits hs.desk hl h.inherits, hadv.concluded h, hadv.sent h,
    hadv.reached h, hadv.single h hs.desk, hadv.based h, ha.served_act hs hl h.served⟩

theorem Ledger.run (h : Ledger answer R c) (hs : c.Sound) (hl : c.desk.service.hasLoader)
    (hR : ∀ {t u}, R t → Links answer t u → R u) {as : List Action} (ho : Obeys answer R c as) :
    Ledger answer R (run c as) := by
  induction as generalizing c with
  | nil => exact h
  | cons a as ih =>
    have hs' : (c.act a).1.Sound := Driver.sound_step (d := driver) hs a
    have hservice : (c.act a).1.desk.service = c.desk.service :=
      Driver.service_step (d := driver) hs a
    exact ih (h.act hs hl hR ho.1) hs' (hservice ▸ hl) ho.2

theorem ledger_start (answer : Answers) (R : String → Prop) (service : Service)
    (client : Client) : Ledger answer R (start service client) where
  fit := fit_start service client
  inherits := inherits_start _ service client
  concluded hj := absurd rfl hj
  sent hj := absurd hj (Nat.not_lt_zero _)
  reached hj := absurd hj (Nat.not_lt_zero _)
  single hi := absurd hi (Nat.not_lt_zero _)
  based hj := absurd hj nofun
  served _ := rfl

end Run

end Coordinator

end Phrasebook
