import Phrasebook.Proofs.Loading.Ledger

/-!
# Requests are joined

However often a lexicon is asked for, the loader is sent for it once: a load is started for a tag
only when the tag is neither there nor pending, so every earlier load of the tag was given up. A
load is sent for in the step that starts it and never again, and the loader is called for it once at
most. The rest follows over whole runs: nothing is fetched again after it was installed, or while
its load is under way.
-/

namespace Phrasebook

namespace Coordinator

def entering (f : Fetch) (c d : Coordinator) : List Nat :=
  (List.range d.desk.store.loads.length).filter fun j =>
    (d.loadOf j).fetch = f ∧ (c.loadOf j).fetch ≠ f

def entered (f : Fetch) (c : Coordinator) : List Action → List Nat
  | [] => []
  | a :: as => entering f c (c.act a).1 ++ entered f (c.act a).1 as

/-- The loads that the loader is sent for in a run. -/
abbrev sent (c : Coordinator) (as : List Action) : List Nat := entered .outstanding c as

abbrev called (c : Coordinator) (as : List Action) : List Nat := entered .finished c as

/-- An action gives a load up: it fails, or its time is over. -/
structure GivenUp (c : Coordinator) (a : Action) (j : Nat) : Prop where
  current : c.desk.store.isCurrent j
  gone : ¬ (c.act a).1.desk.store.isCurrent j
  reason : ∃ is why cause, Course (a.base c) (a.deed c) (c.act a) is ∧
    .settled j (some (.load (c.loadOf j).tag why cause)) ∈ is

/-- A load was given up in a run. -/
def Forsaken (s : Coordinator) (as : List Action) (j : Nat) : Prop :=
  ∃ pre a post, as = pre ++ a :: post ∧ GivenUp (run s pre) a j

/-- A load that a step starts after a run: there is one at most, its tag is neither there nor
pending, and the other loads of its tag were given up. -/
structure Founds (s : Coordinator) (as : List Action) (d : Coordinator) (j : Nat) : Prop where
  newest : j = (run s as).desk.store.loads.length
  absent : ¬ (run s as).desk.store.contains (d.loadOf j).tag
  idle : ¬ (run s as).desk.store.isPending (d.loadOf j).tag
  forsaken : ∀ i, i < (run s as).desk.store.loads.length →
    ((run s as).loadOf i).tag = (d.loadOf j).tag → Forsaken s as i

section Standing

variable {c s : Coordinator} {a : Action} {as : List Action} {j : Nat}

theorem standing_act (hs : c.Sound) (a : Action) (hj : j < c.desk.store.loads.length) :
    ((c.act a).1.loadOf j).standing = (c.loadOf j).standing ∨
      ((c.act a).1.loadOf j).standing = .installed ∧
        (c.act a).1.desk.store.contains (c.loadOf j).tag ∨
      ((c.act a).1.loadOf j).standing = .abandoned ∧ GivenUp c a j := by
  have halike := alike_base c a
  have hsb := halike.sound hs.desk
  have hs' : (c.act a).1.Sound := Driver.sound_step (d := driver) hs a
  by_cases hw : (c.loadOf j).standing = .waiting
  · have hcur := hs.desk.store.isCurrent_iff.mpr ⟨hj, hw⟩
    obtain ⟨is, hcourse⟩ := course_perform hsb (a.deed c)
    rw [← act_eq hs.desk] at hcourse
    rcases hcourse.current hsb ((halike.isCurrent j).mpr hcur) with hd | ⟨outcome, hr⟩
    · exact Or.inl ((hs'.desk.store.isCurrent_iff.mp hd).2.trans hw.symm)
    · cases outcome with
      | none =>
        have harrived := hr.arrived rfl
        rw [halike.tag] at harrived
        exact Or.inr (Or.inl ⟨hr.standing, harrived⟩)
      | some f =>
        obtain ⟨why, cause, rfl⟩ := hr.error f rfl
        have hm := mem_outcomesOf.mp (hr.once ▸ List.mem_singleton_self _)
        rw [halike.tag] at hm
        exact Or.inr (Or.inr ⟨hr.standing, hcur, hr.gone, is, why, cause, hcourse, hm⟩)
  · obtain ⟨N, hm, -⟩ := move_act hs.desk a
    obtain ⟨p, hp, hlater, -⟩ := hm.prepares hs
    have hstand := hp.standing hj
    exact Or.inl (((hlater.desk.load j).standing (hstand ▸ hw)).trans hstand)

theorem Forsaken.snoc (h : Forsaken s as j) (a : Action) : Forsaken s (as ++ [a]) j := by
  obtain ⟨pre, b, post, rfl, hb⟩ := h
  exact ⟨pre, b, post ++ [a], by simp, hb⟩

/-- What the standing of a load says of the run that led to it. -/
structure Recorded (s : Coordinator) (as : List Action) (j : Nat) : Prop where
  installed : ((run s as).loadOf j).standing = .installed →
    (run s as).desk.store.contains ((run s as).loadOf j).tag
  abandoned : ((run s as).loadOf j).standing = .abandoned → Forsaken s as j

theorem Recorded.snoc (hs : s.Sound) (h : Recorded s as j)
    (hj : j < (run s as).desk.store.loads.length) (a : Action) : Recorded s (as ++ [a]) j := by
  have hrun : (run s as).Sound := Driver.sound_run (d := driver) hs as
  have hnext : run s (as ++ [a]) = ((run s as).act a).1 := run_append s as [a]
  have htag : (((run s as).act a).1.loadOf j).tag = ((run s as).loadOf j).tag := by
    obtain ⟨N, hm, -⟩ := move_act hrun.desk a
    obtain ⟨p, hp, hl, -⟩ := hm.prepares hrun
    exact (hl.desk.load j).tag.trans (hp.tag hj)
  constructor
  · intro hi
    rw [hnext] at hi ⊢
    rw [htag]
    rcases standing_act hrun a hj with hsame | ⟨-, hin⟩ | ⟨hd, -⟩
    · exact contains_run hrun (h.installed (hsame ▸ hi)) [a]
    · exact hin
    · exact absurd (hi.symm.trans hd) nofun
  · intro hd
    rw [hnext] at hd
    rcases standing_act hrun a hj with hsame | ⟨hi, -⟩ | ⟨-, hgiven⟩
    · exact (h.abandoned (hsame ▸ hd)).snoc a
    · exact absurd (hi.symm.trans hd) nofun
    · exact ⟨as, a, [], rfl, hgiven⟩

end Standing

section Run

variable {c s : Coordinator} {service : Service} {client : Client} {a : Action} {as : List Action}
  {i j : Nat} {t : String}

structure Ready (c : Coordinator) : Prop where
  sound : c.Sound
  hasLoader : c.desk.service.hasLoader

theorem Ready.act (h : Ready c) (a : Action) : Ready (c.act a).1 :=
  ⟨Driver.sound_step (d := driver) h.sound a,
    (Driver.service_step (d := driver) h.sound a) ▸ h.hasLoader⟩

theorem Ready.run (h : Ready c) (as : List Action) : Ready (run c as) :=
  ⟨Driver.sound_run (d := driver) h.sound as,
    (Driver.service_run (d := driver) h.sound as) ▸ h.hasLoader⟩

theorem Ready.length_le (h : Ready c) (a : Action) :
    c.desk.store.loads.length ≤ (c.act a).1.desk.store.loads.length :=
  (alike_base c a).length ▸ (grows_act h.sound.desk h.hasLoader a).length

theorem Ready.tag_eq (h : Ready c) (a : Action) (hj : j < c.desk.store.loads.length) :
    ((c.act a).1.loadOf j).tag = (c.loadOf j).tag :=
  ((grows_act h.sound.desk h.hasLoader a).tag ((alike_base c a).length ▸ hj)).trans
    ((alike_base c a).tag j)

theorem Ready.run_keeps (h : Ready c) (as : List Action) :
    c.desk.store.loads.length ≤ (Coordinator.run c as).desk.store.loads.length ∧
      ∀ j, j < c.desk.store.loads.length →
        ((Coordinator.run c as).loadOf j).tag = (c.loadOf j).tag := by
  induction as generalizing c with
  | nil => exact ⟨Nat.le_refl _, fun _ _ => rfl⟩
  | cons a as ih =>
    obtain ⟨hle, htag⟩ := ih (h.act a)
    have hfirst := h.length_le a
    exact ⟨Nat.le_trans hfirst hle, fun j hj =>
      (htag j (Nat.lt_of_lt_of_le hj hfirst)).trans (h.tag_eq a hj)⟩

theorem recorded_run (h : Ready s) (h0 : s.desk.store.loads = []) (as : List Action)
    (hj : j < (run s as).desk.store.loads.length) : Recorded s as j := by
  induction as using List.reverseRecOn with
  | nil => simp [run, h0] at hj
  | append_singleton as a ih =>
    have hrun := h.run as
    by_cases hold : j < (run s as).desk.store.loads.length
    · exact (ih hold).snoc h.sound hold a
    · have hnext : run s (as ++ [a]) = ((run s as).act a).1 := run_append s as [a]
      rw [hnext] at hj
      have hnew := newly_act hrun.sound.desk hrun.hasLoader (Nat.le_of_not_lt hold) hj
      constructor
      all_goals
        intro hd
        rw [hnext] at hd
        exact absurd (hnew.standing.symm.trans hd) nofun

/-- Whatever a step starts is founded on what the run before it came to. -/
theorem founds_act (h : Ready s) (h0 : s.desk.store.loads = []) (as : List Action)
    (hle : (run s as).desk.store.loads.length ≤ j)
    (hlt : j < ((run s as).act a).1.desk.store.loads.length) :
    Founds s as ((run s as).act a).1 j := by
  have hrun := h.run as
  have hnew := newly_act hrun.sound.desk hrun.hasLoader hle hlt
  refine ⟨hnew.place, hnew.absent, ?_, fun i hi ht => ?_⟩
  · rw [Store.isPending, Table.contains, hnew.first]
    exact Bool.false_ne_true
  · have hrec := recorded_run h h0 as hi
    cases hstand : ((run s as).loadOf i).standing with
    | waiting =>
      have hcur := hrun.sound.desk.store.isCurrent_iff.mpr ⟨hi, hstand⟩
      have hpending := (Store.isCurrent_iff.mp hcur).2
      rw [← loadOf_eq, ht, hnew.first] at hpending
      contradiction
    | installed => exact absurd (ht ▸ hrec.installed hstand) hnew.absent
    | abandoned => exact hrec.abandoned hstand

end Run

section Errands

variable {c s : Coordinator} {a : Action} {as : List Action} {f : Fetch} {i j : Nat} {t : String}

theorem mem_entering {d : Coordinator} : j ∈ entering f c d ↔
    j < d.desk.store.loads.length ∧ (d.loadOf j).fetch = f ∧ (c.loadOf j).fetch ≠ f := by
  rw [entering, List.mem_filter, List.mem_range, decide_eq_true_eq]

def Action.hears (c : Coordinator) : Action → List Nat
  | .deliver id _ => if (c.loadOf id).fetch = .outstanding then [id] else []
  | _ => []

theorem Action.hears_cases (c : Coordinator) (a : Action) :
    a.hears c = [] ∨ ∃ id, a.hears c = [id] ∧ (c.loadOf id).fetch = .outstanding := by
  cases a with
  | deliver id result =>
    rw [hears]
    split
    · rename_i hout
      exact Or.inr ⟨id, rfl, hout⟩
    · exact Or.inl rfl
  | _ => exact Or.inl rfl

theorem fetch_base (c : Coordinator) (a : Action) (j : Nat) :
    ((a.base c).loadOf j).fetch = if j ∈ a.hears c then .finished else (c.loadOf j).fetch := by
  cases a with
  | deliver id result =>
    rw [Action.base, Action.hears, heard]
    split
    · rename_i hout
      by_cases hj : j = id
      · subst hj
        have hself := Store.load_modify_self (s := c.desk.store)
          (fun l => { l with fetch := .finished }) (lt_of_outstanding hout)
        rw [if_pos (List.mem_singleton_self j)]
        exact congrArg Load.fetch hself
      · have hother := Store.load_modify_ne (s := c.desk.store)
          (fun l => { l with fetch := .finished }) hj
        rw [if_neg (mt List.mem_singleton.mp hj)]
        exact congrArg Load.fetch hother
    · simp
  | ensure tag onSuccess onError =>
    change ((c.requested onSuccess onError).loadOf j).fetch = (c.loadOf j).fetch
    unfold requested
    split <;> rfl
  | define => rfl
  | install l => rfl
  | expire id => rfl

theorem calls_base (c : Coordinator) (a : Action) :
    (a.base c).desk.calls = c.desk.calls ++
      (a.hears c).map fun j => ((c.loadOf j).tag, c.desk.service.baseUrl) := by
  cases a with
  | deliver id result =>
    rw [Action.base, Action.hears, heard]
    split
    · rfl
    · simp
  | ensure tag onSuccess onError =>
    rw [show (Action.ensure tag onSuccess onError).hears c = [] from rfl, List.map_nil,
      List.append_nil, Action.base, requested]
    split <;> rfl
  | define => exact (List.append_nil _).symm
  | install l => exact (List.append_nil _).symm
  | expire id => exact (List.append_nil _).symm

theorem Ready.fetch_act (h : Ready c) (a : Action) (hj : j < c.desk.store.loads.length) :
    ((c.act a).1.loadOf j).fetch =
      if j ∈ a.hears c then .finished else (c.loadOf j).fetch := by
  rw [(grows_act h.sound.desk h.hasLoader a).fetch ((alike_base c a).length ▸ hj), fetch_base]

theorem fetch_unset (h : c.desk.store.loads.length ≤ j) : (c.loadOf j).fetch = .unset :=
  congrArg Load.fetch (loadOf_of_not_lt (Nat.not_lt_of_le h))

theorem Ready.sent_act (h : Ready c) (a : Action) :
    entering .outstanding c (c.act a).1 = List.range' c.desk.store.loads.length
      ((c.act a).1.desk.store.loads.length - c.desk.store.loads.length) := by
  obtain ⟨k, hk⟩ := Nat.exists_eq_add_of_le (h.length_le a)
  have hsplit : List.range (c.act a).1.desk.store.loads.length =
      List.range c.desk.store.loads.length ++ List.range' c.desk.store.loads.length k := by
    rw [hk, List.range_eq_range', List.range_eq_range']
    simpa using (List.range'_append_1 (s := 0) (m := c.desk.store.loads.length) (n := k)).symm
  rw [entering, hsplit, List.filter_append, hk, Nat.add_sub_cancel_left,
    List.filter_eq_nil_iff.mpr, List.nil_append, List.filter_eq_self.mpr]
  · intro j hj
    obtain ⟨hle, hlt⟩ := List.mem_range'_1.mp hj
    have hnew := newly_act h.sound.desk h.hasLoader hle (hk ▸ hlt)
    rw [decide_eq_true_eq]
    exact ⟨hnew.fetch, by rw [fetch_unset hle]; nofun⟩
  · intro j hj
    rw [decide_eq_true_eq, h.fetch_act a (List.mem_range.mp hj)]
    rintro ⟨hout, hne⟩
    split at hout
    · contradiction
    · exact hne hout

theorem Ready.sent_run (h : Ready c) (as : List Action) :
    entered .outstanding c as = List.range' c.desk.store.loads.length
      ((Coordinator.run c as).desk.store.loads.length - c.desk.store.loads.length) := by
  induction as generalizing c with
  | nil => simp [entered, Coordinator.run]
  | cons a as ih =>
    have hle := h.length_le a
    have hrest := ((h.act a).run_keeps as).1
    have hrun : Coordinator.run c (a :: as) = Coordinator.run (c.act a).1 as := rfl
    have happ := List.range'_append_1 (s := c.desk.store.loads.length)
      (m := (c.act a).1.desk.store.loads.length - c.desk.store.loads.length)
      (n := (Coordinator.run (c.act a).1 as).desk.store.loads.length -
        (c.act a).1.desk.store.loads.length)
    rw [Nat.add_sub_cancel' hle] at happ
    rw [entered, h.sent_act, ih (h.act a), hrun, happ]
    congr 1
    omega

theorem Ready.called_act (h : Ready c) (a : Action) :
    entering .finished c (c.act a).1 = a.hears c := by
  have hnew : ∀ j, ¬ j < c.desk.store.loads.length →
      j < (c.act a).1.desk.store.loads.length → ((c.act a).1.loadOf j).fetch ≠ .finished := by
    intro j hold hj
    rw [(newly_act h.sound.desk h.hasLoader (Nat.le_of_not_lt hold) hj).fetch]
    nofun
  rcases a.hears_cases c with hnone | ⟨id, hone, hout⟩
  · rw [hnone, entering, List.filter_eq_nil_iff]
    intro j hj
    rw [decide_eq_true_eq]
    rintro ⟨hfin, hne⟩
    by_cases hold : j < c.desk.store.loads.length
    · rw [h.fetch_act a hold, hnone, if_neg List.not_mem_nil] at hfin
      exact hne hfin
    · exact hnew j hold (List.mem_range.mp hj) hfin
  · have hid := lt_of_outstanding hout
    have hmem := List.mem_range.mpr (Nat.lt_of_lt_of_le hid (h.length_le a))
    have hfilter : entering .finished c (c.act a).1 =
        (List.range (c.act a).1.desk.store.loads.length).filter (· = id) := by
      refine List.filter_congr fun j hj => ?_
      rw [decide_eq_decide]
      constructor
      · rintro ⟨hfin, hne⟩
        by_cases hold : j < c.desk.store.loads.length
        · rw [h.fetch_act a hold, hone] at hfin
          split at hfin
          · rename_i hj
            exact List.mem_singleton.mp hj
          · exact absurd hfin hne
        · exact absurd hfin (hnew j hold (List.mem_range.mp hj))
      · rintro rfl
        rw [h.fetch_act a hid, hone, if_pos (List.mem_singleton_self j), hout]
        exact ⟨rfl, nofun⟩
    rw [hfilter, hone, List.filter_eq, List.count_eq_one_of_mem List.nodup_range hmem]
    rfl

/-- The loader is called once at most for a load, for the tag of the load and where the service
says. -/
theorem Ready.called_run (h : Ready c) (as : List Action) :
    (entered .finished c as).Nodup ∧
      (∀ j ∈ entered .finished c as, (c.loadOf j).fetch ≠ .finished) ∧
      (Coordinator.run c as).desk.calls = c.desk.calls ++ (entered .finished c as).map fun j =>
        (((Coordinator.run c as).loadOf j).tag, c.desk.service.baseUrl) := by
  induction as generalizing c with
  | nil => exact ⟨List.nodup_nil, nofun, (List.append_nil _).symm⟩
  | cons a as ih =>
    obtain ⟨hnodup, hopen, hcalls⟩ := ih (h.act a)
    have hover : ∀ j, (c.loadOf j).fetch = .finished →
        ((c.act a).1.loadOf j).fetch = .finished := by
      intro j hfin
      rw [h.fetch_act a (lt_of_fetch (hfin ▸ nofun)), hfin]
      exact ite_self _
    refine ⟨?_, fun j hj hfin => ?_, ?_⟩
    · refine List.nodup_append.mpr ⟨List.nodup_range.filter _, hnodup, ?_⟩
      rintro j hj _ hlater rfl
      exact hopen j hlater (mem_entering.mp hj).2.1
    · rcases List.mem_append.mp hj with hj | hj
      · exact (mem_entering.mp hj).2.2 hfin
      · exact hopen j hj (hover j hfin)
    · have hservice : (c.act a).1.desk.service = c.desk.service :=
        Driver.service_step (d := driver) h.sound a
      have hfirst : (c.act a).1.desk.calls = c.desk.calls ++ (a.hears c).map fun j =>
          (((Coordinator.run (c.act a).1 as).loadOf j).tag, c.desk.service.baseUrl) := by
        rw [(grows_act h.sound.desk h.hasLoader a).calls, calls_base]
        refine congrArg (c.desk.calls ++ ·) (List.map_congr_left fun j hj => ?_)
        have hold : j < c.desk.store.loads.length := by
          rcases a.hears_cases c with hnone | ⟨id, hone, hout⟩
          · rw [hnone] at hj
            exact absurd hj List.not_mem_nil
          · rw [hone] at hj
            exact List.mem_singleton.mp hj ▸ lt_of_outstanding hout
        have htag := (h.run_keeps (a :: as)).2 j hold
        exact congrArg (·, c.desk.service.baseUrl) htag.symm
      have hrun : Coordinator.run c (a :: as) = Coordinator.run (c.act a).1 as := rfl
      rw [hrun, hcalls, hfirst, hservice, entered, h.called_act, List.map_append,
        List.append_assoc]

end Errands

section Held

variable {c : Coordinator} {a : Action} {as : List Action} {i j : Nat} {t : String}

def Held (c : Coordinator) (t : String) : Prop :=
  c.desk.store.contains t ∨ c.desk.store.pending.get? t ≠ none

theorem Ready.unsent (h : Ready c) (hheld : ∀ pre post, as = pre ++ post →
    Held (Coordinator.run c pre) t) :
    ∀ j ∈ entered .outstanding c as, ((Coordinator.run c as).loadOf j).tag ≠ t := by
  induction as generalizing c with
  | nil => exact fun j hj => absurd hj List.not_mem_nil
  | cons a as ih =>
    intro j hj
    have hrun : Coordinator.run c (a :: as) = Coordinator.run (c.act a).1 as := rfl
    rcases List.mem_append.mp hj with hj | hj
    · obtain ⟨hlt, hout, -⟩ := mem_entering.mp hj
      rw [h.sent_act] at hj
      have hnew := newly_act h.sound.desk h.hasLoader (List.mem_range'_1.mp hj).1 hlt
      rw [hrun, ((h.act a).run_keeps as).2 j hlt]
      rintro rfl
      rcases hheld [] (a :: as) rfl with hin | hpending
      · exact hnew.absent hin
      · exact hpending hnew.first
    · rw [hrun]
      exact ih (h.act a) (fun pre post he => hheld (a :: pre) post (congrArg (a :: ·) he)) j hj

theorem Ready.held_of_contains (h : Ready c) (ht : c.desk.store.contains t) (as : List Action) :
    Held (Coordinator.run c as) t :=
  Or.inl (contains_run h.sound ht as)

theorem Ready.held_of_current (h : Ready c) (hi : i < c.desk.store.loads.length)
    {pre post : List Action} (hc : (Coordinator.run c (pre ++ post)).desk.store.isCurrent i) :
    Held (Coordinator.run c pre) (c.loadOf i).tag := by
  have hpre := h.run pre
  obtain ⟨hle, htag⟩ := h.run_keeps pre
  have hcur : (Coordinator.run c pre).desk.store.isCurrent i := by
    by_contra hn
    rw [run_append] at hc
    exact settled_run hpre.sound (Nat.lt_of_lt_of_le hi hle) hn post hc
  have hpending := (Store.isCurrent_iff.mp hcur).2
  rw [← loadOf_eq, htag i hi] at hpending
  exact Or.inr (hpending ▸ nofun)

end Held

/-- In every run of a coordinator with a loader, the loader is sent for every load once, when the
load is started, and is called for a load once at most, for its tag and where the service says. A
step starts one load at most, for a tag that is neither there nor pending, after the other loads of
the tag were given up. So nothing is sent for again after it was installed, or while its load is
under way. -/
theorem loads_coalesce (service : Service) (client : Client) (hl : service.hasLoader)
    (as : List Action) :
    let s := start service client
    let c := run s as
    sent s as = List.range c.desk.store.loads.length ∧
    (called s as).Nodup ∧
    c.desk.calls = (called s as).map (fun j => ((c.loadOf j).tag, service.baseUrl)) ∧
    (∀ a, ∀ j ∈ sent c [a], Founds s as (c.act a).1 j) ∧
    (∀ t, c.desk.store.contains t → ∀ more, ∀ j ∈ sent c more, ((run c more).loadOf j).tag ≠ t) ∧
    (∀ i, c.desk.store.isCurrent i → ∀ more, (run c more).desk.store.isCurrent i →
      ∀ j ∈ sent c more, ((run c more).loadOf j).tag ≠ (c.loadOf i).tag) := by
  intro s c
  have hs : Ready s := ⟨sound_start service client, hl⟩
  have hc : Ready c := hs.run as
  obtain ⟨hnodup, -, hcalls⟩ := hs.called_run as
  refine ⟨?_, hnodup, hcalls, fun a j hj => ?_, fun t ht more => ?_, fun i hi more hi' => ?_⟩
  · rw [sent, hs.sent_run, List.range_eq_range']
    rfl
  · have hj : j ∈ entering .outstanding c (c.act a).1 ++ [] := hj
    rw [List.append_nil] at hj
    have hlt := (mem_entering.mp hj).1
    rw [hc.sent_act] at hj
    exact founds_act hs rfl as (List.mem_range'_1.mp hj).1 hlt
  · exact hc.unsent fun pre _ _ => hc.held_of_contains ht pre
  · refine hc.unsent fun pre post he => ?_
    exact hc.held_of_current (Store.isCurrent_iff.mp hi).1 (he ▸ hi')

/-- A load fails, and the lexicon is asked for again. While the second load is under way, a
definition and the resource of another tag have the tag as their base. -/
theorem loads_coalesce_retried :
    let data : Value := .map []
    let client : Client := ⟨[], [], [], 0, .broken, "*"⟩
    let s := start ⟨true, ⟨.whole 5, rfl⟩, "lexicons/"⟩ client
    let ok : Given Callback := .function ⟨"ok", none⟩
    let failed : List Action := [.ensure "en" ok none, .deliver 0 (.error .noAttribute)]
    let again : Action := .ensure "en" ok none
    let more : List Action := [.define "en-GB" data (some "en") none none, .ensure "fr" ok none,
      .deliver 2 (.ok ⟨data, some "en"⟩)]
    let c := run s (failed ++ [again])
    (start ⟨true, ⟨.whole 5, rfl⟩, "lexicons/"⟩ client).desk.service.hasLoader ∧
    Founds s failed c 1 ∧ sent s (failed ++ [again]) = [0, 1] ∧
    c.desk.calls = [("en", "lexicons/")] ∧
    c.desk.store.isCurrent 1 ∧ (run c more).desk.store.isCurrent 1 ∧
    sent c more = [2] ∧ ((run c more).loadOf 2).tag ≠ (c.loadOf 1).tag := by
  intro data client s ok failed again more c
  obtain ⟨-, -, -, hfounds, -⟩ :=
    loads_coalesce ⟨true, ⟨.whole 5, rfl⟩, "lexicons/"⟩ client rfl failed
  obtain ⟨hsent, -, -, -, -, hheld⟩ :=
    loads_coalesce ⟨true, ⟨.whole 5, rfl⟩, "lexicons/"⟩ client rfl (failed ++ [again])
  have hnext : c = ((run s failed).act again).1 := run_append s failed [again]
  have hfound : Founds s failed c 1 := by
    rw [hnext]
    exact hfounds again 1 (by decide +kernel)
  have hlength : c.desk.store.loads.length = 2 := by decide +kernel
  have hboth : sent s (failed ++ [again]) = [0, 1] := hsent.trans (congrArg List.range hlength)
  have hother := hheld 1 (by decide +kernel) more (by decide +kernel) 2 (by decide +kernel)
  exact ⟨rfl, hfound, hboth, by decide +kernel, by decide +kernel, by decide +kernel,
    by decide +kernel, hother⟩

end Coordinator

end Phrasebook
