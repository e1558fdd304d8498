import Phrasebook.Proofs.Loading.Ledger
import Phrasebook.Proofs.Number.Decimal

/-!
# The order of the answers does not matter

Requests are made, and then the loader answers the errands until none is out. Whatever the order of
the answers, the same lexicons are installed, and every request meets the same end: what loading its
tag comes to.
-/

namespace Phrasebook

theorem Client.mem_log {client : Client} {e : Event} (h : e ∈ client.events) :
    e ∈ client.log e.request :=
  List.mem_filter.mpr ⟨h, by simp⟩

namespace Coordinator

open Relation

def Idle (c : Coordinator) : Prop := ∀ l ∈ c.desk.store.loads, l.fetch ≠ .outstanding

instance (c : Coordinator) : Decidable c.Idle :=
  inferInstanceAs (Decidable (∀ l ∈ c.desk.store.loads, l.fetch ≠ .outstanding))

/-- A state that only requests and errands led to, when no errand is out any more. -/
structure Rested (answer : Answers) (R : String → Prop) (c : Coordinator) : Prop where
  sound : c.Sound
  ledger : Ledger answer R c
  idle : ∀ j, (c.loadOf j).fetch ≠ .outstanding
  lasts : ∀ {id}, c.desk.store.isCurrent id → Lasts answer (c.loadOf id).tag

section Rested

variable {answer : Answers} {R : String → Prop} {c : Coordinator} {j : Nat} {t u : String}
  {l : Lexicon}

theorem Rested.finished (h : Rested answer R c) (hj : j < c.desk.store.loads.length) :
    (c.loadOf j).fetch = .finished := by
  have hsent := h.ledger.sent hj
  have hidle := h.idle j
  cases hf : (c.loadOf j).fetch with
  | unset => exact absurd hf hsent
  | outstanding => exact absurd hf hidle
  | finished => rfl

theorem Rested.installed (h : Rested answer R c) (hj : j < c.desk.store.loads.length)
    (hl : Loads answer (c.loadOf j).tag l) : (c.loadOf j).standing = .installed := by
  by_cases hw : (c.loadOf j).standing = .waiting
  · have hcur := h.sound.desk.store.isCurrent_iff.mpr ⟨hj, hw⟩
    exact absurd (h.lasts hcur) (Closes.not_lasts (Or.inl ⟨l, hl⟩))
  · cases h.ledger.concluded hw with
    | installed hj _ => exact hj
    | abandoned _ hf => exact absurd hl hf.not_loads

theorem Rested.contains (h : Rested answer R c) (ht : Begun c t) (hl : Loads answer t l) :
    c.desk.store.contains t := by
  obtain ⟨j, hj, rfl⟩ := ht
  have hinst := h.installed hj hl
  have hsettled : (c.loadOf j).standing ≠ .waiting := hinst ▸ nofun
  cases h.ledger.concluded hsettled with
  | installed _ hin => exact hin
  | abandoned hab _ => exact absurd (hinst.symm.trans hab) nofun

theorem Rested.begun (h : Rested answer R c) (ht : c.desk.store.contains t) : Begun c t := by
  obtain ⟨place, hp⟩ := Option.isSome_iff_exists.mp ht
  obtain ⟨base, entries, under, ⟨data, ha, -⟩, -⟩ := h.ledger.inherits.founded t place hp
  exact (begun_of_known ha).1

theorem Rested.base (h : Rested answer R c) (ht : Sought c t) (hl : Links answer t u) :
    Sought c u := by
  rcases ht with ht | ⟨j, hj, rfl⟩
  · obtain ⟨place, hp⟩ := Option.isSome_iff_exists.mp ht
    obtain ⟨-, data, ha⟩ := hl
    obtain ⟨q, -, hq⟩ := base_below h.ledger.inherits.answered.founded hp
      ⟨data, delivery_eq_resource.mpr ha⟩
    exact Or.inl (Option.isSome_of_mem hq)
  · exact h.ledger.based (h.finished hj) hl

theorem Rested.chain (h : Rested answer R c) (ht : Sought c t)
    (hl : ReflTransGen (Links answer) t u) : Sought c u := by
  induction hl with
  | refl => exact ht
  | tail _ hl ih => exact h.base ih hl

/-- What is installed in the end, and as what, does not depend on the way there. -/
theorem Rested.lexicon?_eq (h : Rested answer R c) (hR : ∀ {t}, R t → Sought c t) :
    c.desk.lexicon? t = some l ↔ R t ∧ Loads answer t l := by
  constructor
  · intro hl
    have hsome : c.desk.lexicon? t ≠ none := hl ▸ nofun
    have ht := contains_of_lexicon? hsome
    obtain ⟨l', hl', hloads⟩ := loads_of_contains h.ledger.inherits.answered.founded ht
    obtain rfl := Option.some.inj (hl.symm.trans hl')
    obtain ⟨j, hj, rfl⟩ := h.begun ht
    exact ⟨h.ledger.reached hj, hloads⟩
  · rintro ⟨ht, hl⟩
    have hin : c.desk.store.contains t := (hR ht).elim id fun hb => h.contains hb hl
    obtain ⟨l', hl', hloads⟩ := loads_of_contains h.ledger.inherits.answered.founded hin
    rwa [hl.unique hloads]

theorem Rested.called_once (h : Rested answer R c) (ht : c.desk.store.contains t) :
    c.desk.calls.count (t, c.desk.service.baseUrl) = 1 := by
  obtain ⟨l, -, hl⟩ := loads_of_contains h.ledger.inherits.answered.founded ht
  obtain ⟨j, hj, rfl⟩ := h.begun ht
  rw [h.ledger.served, Finset.card_eq_one]
  refine ⟨j, ?_⟩
  ext i
  rw [mem_served, Finset.mem_singleton]
  constructor
  · rintro ⟨htag, hf⟩
    have hi : i < c.desk.store.loads.length := lt_of_fetch (hf ▸ nofun)
    have hinst := h.installed hi (htag.symm ▸ hl)
    exact h.ledger.single hi hj htag (hinst ▸ nofun) (h.installed hj hl ▸ nofun)
  · rintro rfl
    exact ⟨rfl, h.finished hj⟩

end Rested

section Obeys

variable {answer : Answers} {R : String → Prop} {s : Coordinator} {as : List Action}
  {id : Nat} {t : String}

theorem tag_run (hs : s.Sound) (hid : id < s.desk.store.loads.length) (as : List Action) :
    ((run s as).loadOf id).tag = (s.loadOf id).tag := by
  have hrun := Driver.preserved_run (d := driver)
    (P := fun c => id < c.desk.store.loads.length ∧ (c.loadOf id).tag = (s.loadOf id).tag)
    ?_ ?_ hs ⟨hid, rfl⟩ as
  · exact hrun.2
  · rintro N o c p ⟨hid, ht⟩ hp
    exact ⟨Nat.lt_of_lt_of_le hid hp.length, (hp.tag hid).trans ht⟩
  · rintro c d ⟨hid, ht⟩ hl
    exact ⟨hl.desk.length ▸ hid, (hl.desk.load id).tag.trans ht⟩

theorem Routine.answer_eq {c : Coordinator} {result : Except Fault Resource}
    (h : Routine answer R c (.deliver id result)) : result = answer (c.loadOf id).tag := by
  cases h with
  | errand => rfl

theorem Obeys.heard {result : Except Fault Resource} (ho : Obeys answer R s as) (hs : s.Sound)
    (hr : Heard s as id result) : answer ((run s as).loadOf id).tag = result := by
  obtain ⟨pre, post, rfl, hout⟩ := hr
  obtain ⟨-, hroutine, -⟩ := obeys_append.mp ho
  have hpre : (run s pre).Sound := Driver.sound_run (d := driver) hs pre
  rw [run_append, tag_run hpre (lt_of_outstanding hout)]
  exact hroutine.answer_eq.symm

end Obeys

section Stuck

variable {answer : Answers} {R : String → Prop} {s : Coordinator} {as : List Action} {id : Nat}

theorem Lasts.of_base {t b : String} (hl : Links answer t b) (h : Lasts answer b) :
    Lasts answer t := by
  obtain ⟨u, hu, h⟩ := h
  exact ⟨u, .head hl hu, h⟩

/-- A load that is still current waits for a current load of its base, or its data are garbled, or
its fault has no text. -/
theorem Obeys.held (ho : Obeys answer R s as) (hs : s.Sound) (hl : s.desk.service.hasLoader)
    (hnone : ∀ id, ¬ s.desk.store.isCurrent id)
    (hf : Founded (fun t => delivery (answer t)) (run s as).desk)
    (hidle : ∀ j, ((run s as).loadOf j).fetch ≠ .outstanding)
    (hc : (run s as).desk.store.isCurrent id) :
    (Garbled answer ((run s as).loadOf id).tag ∨ Mute answer ((run s as).loadOf id).tag) ∨
      ∃ j, (run s as).desk.store.isCurrent j ∧
        Links answer ((run s as).loadOf id).tag ((run s as).loadOf j).tag := by
  rcases cared_run hs hl hnone as id hc with hout | ⟨base, data, j, hr, hw⟩ | hst
  · exact absurd hout (hidle id)
  · refine Or.inr ⟨j, hw.current, ?_⟩
    rw [hw.tag]
    exact ⟨hw.other, data, ho.heard hs hr⟩
  · left
    cases hst with
    | @unreadable r hr hb hd =>
      left
      have ha := ho.heard hs hr
      obtain ⟨data, _ | b⟩ := r
      · exact ⟨data, none, .plain ha, hd⟩
      · have hrun : (run s as).Sound := Driver.sound_run (d := driver) hs as
        obtain ⟨l, -, hloads⟩ := loads_of_contains hf (hb b rfl)
        refine ⟨data, some l, .based ha ?_ hloads, hd⟩
        rintro rfl
        exact absent_of_current hrun.desk hc (hb _ rfl)
    | wordless hr hf => exact Or.inr ⟨_, _, ho.heard hs hr, hf⟩

abbrev Unexplained (answer : Answers) (c : Coordinator) : Type :=
  { i : Fin c.desk.store.loads.length //
    c.desk.store.isCurrent i ∧ ¬ Lasts answer (c.loadOf i).tag }

/-- A load that is current when no errand is out will be for ever. -/
theorem Obeys.lasts (ho : Obeys answer R s as) (hs : s.Sound) (hl : s.desk.service.hasLoader)
    (hnone : ∀ id, ¬ s.desk.store.isCurrent id)
    (hf : Founded (fun t => delivery (answer t)) (run s as).desk)
    (hidle : ∀ j, ((run s as).loadOf j).fetch ≠ .outstanding)
    (hc : (run s as).desk.store.isCurrent id) : Lasts answer ((run s as).loadOf id).tag := by
  let c := run s as
  by_contra hn
  -- every such load waits for another one, and there are finitely many: they wait in a cycle
  have hsome : Nonempty (Unexplained answer c) := ⟨⟨id, (Store.isCurrent_iff.mp hc).1⟩, hc, hn⟩
  obtain ⟨⟨i, _, hi⟩, hcycle⟩ :=
    exists_cycle (r := Links answer) (fun i : Unexplained answer c => (c.loadOf i.1).tag) <| by
      rintro ⟨i, hi, hn⟩
      rcases ho.held hs hl hnone hf hidle hi with hg | ⟨j, hj, hlinks⟩
      · exact absurd ⟨_, .refl, Or.inr hg⟩ hn
      · refine ⟨⟨⟨j, (Store.isCurrent_iff.mp hj).1⟩, hj, fun h => hn (.of_base hlinks h)⟩, ?_⟩
        exact hlinks
  exact hi ⟨_, .refl, Or.inl hcycle⟩

theorem idle_loadOf {c : Coordinator} (h : c.Idle) (j : Nat) :
    (c.loadOf j).fetch ≠ .outstanding := by
  intro hout
  have hj := lt_of_outstanding hout
  rw [loadOf, List.getElem?_eq_getElem hj] at hout
  exact h _ (List.getElem_mem hj) hout

theorem rested_run {service : Service} {client : Client} (hl : service.hasLoader)
    (hR : ∀ {t u}, R t → Links answer t u → R u)
    (ho : Obeys answer R (start service client) as) (hi : (run (start service client) as).Idle) :
    Rested answer R (run (start service client) as) := by
  have hs : (start service client).Sound := sound_start service client
  have hledger := (ledger_start answer R service client).run hs hl hR ho
  have hidle := idle_loadOf hi
  refine ⟨Driver.sound_run (d := driver) hs as, hledger, hidle, fun hc => ?_⟩
  exact ho.lasts hs hl (fun _ hc => absurd hc nofun) hledger.inherits.answered.founded hidle hc

end Stuck

section Told

variable {b c : Coordinator} {deed : Deed} {s : Step} {is : List Incident} {j n : Nat}
  {f : Callback} {err : Option Callback} {g : Fault}

theorem Course.told_failure (h : Course b deed s is) (hs : b.desk.Sound) (ha : Accounts b s is)
    (hm : .settled j (some g) ∈ is)
    (hw : callerWaiter n (.function f) (err.map .function) ∈ (b.loadOf j).waiters) :
    (∀ k ∈ err, ⟨n, k.name, .failed g⟩ ∈ s.1.client.events) ∧
      (err = none → g ∈ Fault.leavesAll s.2.toList) := by
  have hres := ha.resolved j (some g) hm
  refine ⟨?_, ?_⟩
  · rintro k ⟨rfl⟩
    obtain ⟨c₁, raised, hmem⟩ := hres.turn hw rfl
    obtain ⟨owner, b', ts, -, hscene, -⟩ := h.scene hs hmem
    have hcall : ⟨n, k.name, .failed g⟩ ∈ (take announce c₁
        (.failure g (.listener (.caller n (.function k))))).1.client.events :=
      List.mem_append_right _ List.mem_cons_self
    exact hscene.after.client.events.subset hcall
  · rintro rfl
    obtain ⟨why, cause, rfl⟩ := hres.error g rfl
    have hun : (b.loadOf j).isUnobserved := Load.isUnobserved_of_mem hw rfl
    rw [ha.faults]
    refine Fault.mem_leavesAll_of_mem (List.mem_flatMap.mpr ⟨_, hm, ?_⟩)
    rw [raises, Load.unhandled, if_pos hun]
    exact List.mem_singleton.mpr rfl

end Told

section Requests

variable {c : Coordinator}

theorem act_request (hs : c.Sound) (hnone : ∀ t, ¬ c.desk.store.contains t) (q : Request) :
    (c.act q.action).1.client.requests = c.client.requests + 1 ∧
      ∀ t, ¬ (c.act q.action).1.desk.store.contains t := by
  obtain ⟨tag, f, err⟩ := q
  change (c.act (.ensure tag (.function f) (err.map .function))).1.client.requests = _ ∧
    ∀ t, ¬ (c.act (.ensure tag (.function f) (err.map .function))).1.desk.store.contains t
  rw [act_ensure f err]
  rcases ensure_cases (c := c.numbered) hs.desk tag
    (callerWaiter c.client.requests (.function f) (err.map .function)) with
    ⟨ht, -⟩ | ⟨id, d, heq, hq⟩
  · exact absurd ht (hnone tag)
  · rw [heq]
    refine ⟨rfl, fun t => ?_⟩
    have hinstalled : d.store.installed = c.desk.store.installed := hq.installed
    rw [Store.contains, hinstalled]
    exact hnone t

theorem run_requests (hs : c.Sound) (hnone : ∀ t, ¬ c.desk.store.contains t)
    (qs : List Request) :
    (run c (qs.map Request.action)).client.requests = c.client.requests + qs.length ∧
      ∀ t, ¬ (run c (qs.map Request.action)).desk.store.contains t := by
  induction qs generalizing c with
  | nil => exact ⟨rfl, hnone⟩
  | cons q qs ih =>
    obtain ⟨hrequests, hnone'⟩ := act_request hs hnone q
    have hs' : (c.act q.action).1.Sound := Driver.sound_step (d := driver) hs q.action
    obtain ⟨hlast, hend⟩ := ih hs' hnone'
    refine ⟨hlast.trans ?_, hend⟩
    rw [hrequests, List.length_cons]
    omega

end Requests

/-- What becomes of a request in a run: its callback for success is called, or it is told of a
failure, which is raised if there is no callback for it, or it goes on waiting. -/
inductive Met (s : Coordinator) (as : List Action) (n : Nat) (q : Request) : Upshot → Prop where
  | loaded (ht : (run s as).desk.store.contains q.tag)
      (hlog : (run s as).client.log n = [⟨n, q.onSuccess.name, .present⟩]) : Met s as n q .loaded
  | failed {f} (ht : ¬ (run s as).desk.store.contains q.tag)
      (hp : ¬ (run s as).desk.store.isPending q.tag)
      (hlog : (run s as).client.log n = (q.onError.map fun g => ⟨n, g.name, .failed f⟩).toList)
      (hraised : q.onError = none → ∃ pre a post, as = pre ++ a :: post ∧
        f ∈ Fault.leavesAll ((run s pre).act a).2.toList) : Met s as n q (.failed f)
  | waiting (hp : (run s as).desk.store.isPending q.tag)
      (hlog : (run s as).client.log n = []) : Met s as n q .waiting

section Met

variable {answer : Answers} {R : String → Prop} {s c : Coordinator} {a : Action} {id n : Nat}
  {f : Callback} {err : Option Callback}

theorem Routine.told_failure (ha : Routine answer R c a) (hs : c.Sound)
    (hl : c.desk.service.hasLoader) (h : Ledger answer R c) (hc : c.desk.store.isCurrent id)
    (hn : ((c.act a).1.loadOf id).standing = .abandoned)
    (hw : callerWaiter n (.function f) (err.map .function) ∈ (c.loadOf id).waiters) :
    ∃ g, Fails answer (c.loadOf id).tag g ∧
      (∀ k ∈ err, ⟨n, k.name, .failed g⟩ ∈ (c.act a).1.client.events) ∧
      (err = none → g ∈ Fault.leavesAll (c.act a).2.toList) := by
  have halike := alike_base c a
  have hs' : (c.act a).1.Sound := Driver.sound_step (d := driver) hs a
  have hgone : ¬ (c.act a).1.desk.store.isCurrent id := by
    intro hd
    exact absurd (hn.symm.trans (hs'.desk.store.isCurrent_iff.mp hd).2) nofun
  obtain ⟨is, hcourse, hacc, hfails⟩ := ha.accounts hs.desk hl h.fit h.inherits hc hgone
  obtain ⟨outcome, hm⟩ := (hacc.settled id).mpr ⟨(halike.isCurrent id).mpr hc, hgone⟩
  cases outcome with
  | none => exact absurd (hn.symm.trans (hacc.resolved id none hm).standing) nofun
  | some g =>
    rw [← halike.waiters] at hw
    exact ⟨g, hfails hm, hcourse.told_failure (halike.sound hs.desk) hacc hm hw⟩

theorem Rested.failed {t : String} {g : Fault} (h : Rested answer R c) (hf : Fails answer t g) :
    ¬ c.desk.store.contains t ∧ ¬ c.desk.store.isPending t := by
  constructor
  · intro ht
    obtain ⟨l, -, hl⟩ := loads_of_contains h.ledger.inherits.answered.founded ht
    exact hf.not_loads hl
  · intro hp
    obtain ⟨id, hid⟩ := Option.isSome_iff_exists.mp hp
    have hlasts := h.lasts (h.sound.desk.store.isCurrent hid)
    rw [loadOf_eq, (h.sound.desk.store.pending_load hid).2] at hlasts
    exact Closes.not_lasts (Or.inr ⟨g, hf⟩) hlasts

theorem log_failed {client : Client} {e g : Fault}
    (hlog : client.log n = (err.map fun k => ⟨n, k.name, .failed e⟩).toList)
    (hevent : ∀ k ∈ err, ⟨n, k.name, .failed g⟩ ∈ client.events) :
    client.log n = (err.map fun k => ⟨n, k.name, .failed g⟩).toList := by
  cases err with
  | none => exact hlog
  | some k =>
    have hmem := Client.mem_log (hevent k rfl)
    rw [hlog] at hmem ⊢
    exact congrArg (fun x => [x]) (List.mem_singleton.mp hmem).symm

/-- A request was queued at a load of its tag, and nobody was told anything yet. -/
structure Queued (answer : Answers) (R : String → Prop) (c : Coordinator) (n : Nat) (q : Request)
    (id : Nat) : Prop where
  ledger : Ledger answer R c
  tracks : Tracks c (.request n) id
    (callerWaiter n (.function q.onSuccess) (q.onError.map .function))
  current : c.desk.store.isCurrent id
  tag : (c.loadOf id).tag = q.tag
  unheard : c.client.log n = []

section Queued

variable {q : Request} {as mid post : List Action} {p : Coordinator} {e : Fault}

theorem Queued.tag_end (h : Queued answer R c n q id) (as : List Action) :
    ((run c as).loadOf id).tag = q.tag :=
  (tag_run h.tracks.sound h.tracks.known as).trans h.tag

theorem Queued.met_waiting (h : Queued answer R c n q id) (hr : Rested answer R (run c as))
    (hc : (run c as).desk.store.isCurrent id) (hlog : (run c as).client.log n = []) :
    ∃ v, Comes answer q.tag v ∧ Met c as n q v := by
  have hlasts := hr.lasts hc
  have hp := (Store.isCurrent_iff.mp hc).2
  rw [h.tag_end] at hlasts
  rw [← loadOf_eq, h.tag_end] at hp
  exact ⟨.waiting, .waiting hlasts, .waiting (Option.isSome_of_mem hp) hlog⟩

theorem Queued.met_loaded (h : Queued answer R c n q id) (hr : Rested answer R (run c as))
    (hstand : ((run c as).loadOf id).standing = .installed)
    (hlog : (run c as).client.log n = [⟨n, q.onSuccess.name, .present⟩]) :
    ∃ v, Comes answer q.tag v ∧ Met c as n q v := by
  have hsettled : ((run c as).loadOf id).standing ≠ .waiting := hstand ▸ nofun
  cases hr.ledger.concluded hsettled with
  | installed _ hin =>
    rw [h.tag_end] at hin
    obtain ⟨l, -, hl⟩ := loads_of_contains hr.ledger.inherits.answered.founded hin
    exact ⟨.loaded, .loaded hl, .loaded hin hlog⟩
  | abandoned hab _ => exact absurd (hstand.symm.trans hab) nofun

theorem Queued.met_failed (h : Queued answer R c n q id) (hl : c.desk.service.hasLoader)
    (hR : ∀ {t u}, R t → Links answer t u → R u) (ho : Obeys answer R c (mid ++ a :: post))
    (hr : Rested answer R (run c (mid ++ a :: post)))
    (hset : Driver.Settled driver (.request n) id
      (callerWaiter n (.function q.onSuccess) (q.onError.map .function)) c
      (mid ++ a :: post) mid a p)
    (hstand : ((run c (mid ++ a :: post)).loadOf id).standing = .abandoned)
    (hlog : ((run c mid).act a).1.client.log n =
      (q.onError.map fun k => ⟨n, k.name, .failed e⟩).toList) :
    ∃ v, Comes answer q.tag v ∧ Met c (mid ++ a :: post) n q v := by
  obtain ⟨homid, ha, -⟩ := obeys_append.mp ho
  have hs := h.tracks.sound
  have hmid : (run c mid).Sound := Driver.sound_run (d := driver) hs mid
  have hservice : (run c mid).desk.service = c.desk.service :=
    Driver.service_run (d := driver) hs mid
  obtain ⟨g, hfails, hevent, hraised⟩ := ha.told_failure hmid (hservice ▸ hl)
    (h.ledger.run hs hl hR homid) hset.current (hset.standing.symm.trans hstand)
    hset.tracks.sole.mem
  rw [h.tag_end] at hfails
  obtain ⟨ht, hp⟩ := hr.failed hfails
  have hseen : (run c (mid ++ a :: post)).client.log n = ((run c mid).act a).1.client.log n :=
    congrArg Prod.fst hset.seen
  exact ⟨.failed g, .failed hfails, .failed ht hp (hseen.trans (log_failed hlog hevent)) fun hn =>
    ⟨mid, a, post, rfl, hraised hn⟩⟩

theorem Queued.met (h : Queued answer R c n q id) (hl : c.desk.service.hasLoader)
    (hR : ∀ {t u}, R t → Links answer t u → R u) (ho : Obeys answer R c as)
    (hr : Rested answer R (run c as)) : ∃ v, Comes answer q.tag v ∧ Met c as n q v := by
  rcases Driver.tracked_run (d := driver) h.tracks h.current as with
    ⟨hc, hseen⟩ | ⟨mid, a, post, p, rfl, hset⟩
  · exact h.met_waiting hr hc ((congrArg Prod.fst hseen).trans h.unheard)
  · obtain ⟨outcome, c₀, htold⟩ := hset.told
    have hlog₀ : c₀.client.log n = [] := (congrArg Prod.fst htold.unseen).trans h.unheard
    cases outcome with
    | none =>
      have hlog := log_of_told_success htold.told hlog₀
      exact h.met_loaded hr htold.standing ((congrArg Prod.fst hset.seen).trans hlog)
    | some e =>
      exact h.met_failed hl hR ho hr hset htold.standing (log_of_told_failure htold.told hlog₀).1

theorem Met.after {pre : List Action} {v : Upshot} (h : Met (run s pre) as n q v) :
    Met s (pre ++ as) n q v := by
  cases h with
  | loaded ht hlog =>
    rw [← run_append] at ht hlog
    exact .loaded ht hlog
  | failed ht hp hlog hraised =>
    rw [← run_append] at ht hp hlog
    refine .failed ht hp hlog fun hn => ?_
    obtain ⟨mid, a, post, rfl, hf⟩ := hraised hn
    rw [← run_append] at hf
    exact ⟨pre ++ mid, a, post, (List.append_assoc ..).symm, hf⟩
  | waiting hp hlog =>
    rw [← run_append] at hp hlog
    exact .waiting hp hlog

end Queued

end Met

/-- A tag is requested, or a base of one that is, directly or through others. -/
def Reached (answer : Answers) (requests : List Request) (t : String) : Prop :=
  ∃ q ∈ requests, ReflTransGen (Links answer) q.tag t

section Reached

variable {answer : Answers} {requests : List Request} {t u : String}

theorem Reached.base (h : Reached answer requests t) (hl : Links answer t u) :
    Reached answer requests u := by
  obtain ⟨q, hq, ht⟩ := h
  exact ⟨q, hq, ht.tail hl⟩

theorem reached_of_mem {q : Request} (hq : q ∈ requests) : Reached answer requests q.tag :=
  ⟨q, hq, .refl⟩

end Reached

section Requested

variable {answer : Answers} {R : String → Prop} {service : Service} {client : Client}
  {requests : List Request} {as : List Action} {n : Nat} {q : Request}

theorem queued_request (client : Client) (hl : service.hasLoader)
    (hR : ∀ {t u}, R t → Links answer t u → R u)
    (hrequests : ∀ q ∈ requests, R q.tag) (hq : requests[n]? = some q) :
    ∃ id, Queued answer R
      (run (start service client) ((requests.take (n + 1)).map Request.action)) n q id := by
  obtain ⟨hn, rfl⟩ := List.getElem?_eq_some_iff.mp hq
  let s := start service client
  have hs : s.Sound := sound_start service client
  obtain ⟨hnumber, hnone⟩ := run_requests hs (fun _ ht => absurd ht nofun) (requests.take n)
  have hpre : (run s ((requests.take n).map Request.action)).Sound :=
    Driver.sound_run (d := driver) hs _
  have hlen : (run s ((requests.take n).map Request.action)).client.requests = n := by
    rw [hnumber, List.length_take_of_le (Nat.le_of_lt hn)]
    exact Nat.zero_add n
  obtain ⟨id, -, hcur, htag, hlog, htracks⟩ :=
    asked requests[n].onSuccess requests[n].onError hpre (hnone requests[n].tag)
  have hobeys : Obeys answer R s ((requests.take (n + 1)).map Request.action) :=
    obeys_requests fun q hq => hrequests q (List.mem_of_mem_take hq)
  have hledger := (ledger_start answer R service client).run hs hl hR hobeys
  have hrun : run s ((requests.take (n + 1)).map Request.action) =
      ((run s ((requests.take n).map Request.action)).act requests[n].action).1 := by
    rw [← run_snoc, List.take_succ_eq_append_getElem hn, List.map_append]
    rfl
  rw [hlen] at hlog htracks
  rw [hrun] at hledger ⊢
  exact ⟨id, hledger, htracks, hcur, htag, hlog⟩

/-- Every request of a run in which no errand is out any more meets the end that its tag comes to,
and its tag was sought. -/
theorem met_request (hl : service.hasLoader) (hR : ∀ {t u}, R t → Links answer t u → R u)
    (hrequests : ∀ q ∈ requests, R q.tag) (hq : requests[n]? = some q)
    (ho : Obeys answer R (start service client) (requests.map Request.action ++ as))
    (hr : Rested answer R
      (run (start service client) (requests.map Request.action ++ as))) :
    Sought (run (start service client) (requests.map Request.action ++ as)) q.tag ∧
      ∃ v, Comes answer q.tag v ∧
        Met (start service client) (requests.map Request.action ++ as) n q v := by
  obtain ⟨id, hqueued⟩ := queued_request client hl hR hrequests hq
  have hsplit : requests.map Request.action ++ as =
      (requests.take (n + 1)).map Request.action ++
        ((requests.drop (n + 1)).map Request.action ++ as) := by
    rw [← List.append_assoc, ← List.map_append, List.take_append_drop]
  rw [hsplit] at ho hr ⊢
  have hservice : (run (start service client)
      ((requests.take (n + 1)).map Request.action)).desk.service = service :=
    Driver.service_run (d := driver) (sound_start service client) _
  rw [run_append] at hr
  obtain ⟨v, hv, hmet⟩ := hqueued.met (hservice.symm ▸ hl) hR (obeys_append.mp ho).2 hr
  refine ⟨?_, v, hv, hmet.after⟩
  rw [run_append]
  exact Or.inr ⟨id, (Driver.tracks_run (d := driver) hqueued.tracks _).known, hqueued.tag_end _⟩

end Requested

/-- The requests are made, and then the loader answers errands. -/
def round (answer : Answers) (s : Coordinator) (requests : List Request) (ids : List Nat) :
    List Action :=
  requests.map Request.action ++ errands answer (run s (requests.map Request.action)) ids

section Round

variable {answer : Answers} {service : Service} {client : Client} {requests : List Request}
  {ids : List Nat} {n : Nat} {q : Request}

theorem obeys_round (answer : Answers) (s : Coordinator) (requests : List Request)
    (ids : List Nat) : Obeys answer (Reached answer requests) s (round answer s requests ids) :=
  obeys_append.mpr ⟨obeys_requests fun _ => reached_of_mem, obeys_errands ids⟩

theorem rested_round (hl : service.hasLoader)
    (hi : (run (start service client) (round answer (start service client) requests ids)).Idle) :
    Rested answer (Reached answer requests)
      (run (start service client) (round answer (start service client) requests ids)) :=
  rested_run hl Reached.base (obeys_round answer _ requests ids) hi

theorem met_round (hl : service.hasLoader)
    (hi : (run (start service client) (round answer (start service client) requests ids)).Idle)
    (hq : requests[n]? = some q) :
    Sought (run (start service client) (round answer (start service client) requests ids)) q.tag ∧
      ∃ v, Comes answer q.tag v ∧
        Met (start service client) (round answer (start service client) requests ids) n q v :=
  met_request hl Reached.base (fun _ => reached_of_mem) hq (obeys_round answer _ requests ids)
    (rested_round hl hi)

/-- What is installed in the end, and as what, depends on the loader and the requests alone. -/
theorem lexicon?_round {t : String} {l : Lexicon} (hl : service.hasLoader)
    (hi : (run (start service client) (round answer (start service client) requests ids)).Idle) :
    (run (start service client)
      (round answer (start service client) requests ids)).desk.lexicon? t = some l ↔
      Reached answer requests t ∧ Loads answer t l := by
  have hr := rested_round hl hi
  refine hr.lexicon?_eq ?_
  rintro t ⟨q, hq, ht⟩
  obtain ⟨n, hn⟩ := List.getElem?_of_mem hq
  exact hr.chain (met_round hl hi hn).1 ht

end Round

end Coordinator

end Phrasebook
