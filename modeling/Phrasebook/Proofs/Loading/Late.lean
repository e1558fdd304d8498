import Phrasebook.Proofs.Loading.Receipt

/-!
# What comes too late

A load that was settled may still have its errand out and its timer running, and its continuation
may still wait for its base. Whatever comes of them finds that the load is not current, and writes
to the log. Only a resource that extends a base which is not there does more: the base is asked for
first, and nobody wants it any more.
-/

namespace Phrasebook

namespace Coordinator

def logged (c : Coordinator) (ns : List Notice) : Coordinator :=
  { c with desk := { c.desk with notices := c.desk.notices ++ ns } }

/-- The fault that keeps data from being reported as malformed. -/
def unreadable? (data : Value) : Option Fault :=
  match LexiconData.ofValue data with
  | .error .longNumber => some (.data .longNumber)
  | _ => none

section Turns

variable {c : Coordinator} {id : Nat}

theorem logged_nil (c : Coordinator) : c.logged [] = c := by
  simp [logged]

theorem failLoad_late (hc : ¬ c.desk.store.isCurrent id) (why : LoadFailure) (cause : Fault) :
    ∃ ns, ∀ announce, failLoad announce c id why cause = (c.logged ns, none) := by
  refine ⟨[.lateFailure (c.loadOf id).tag cause.message], ?_⟩
  intro announce
  simp only [failLoad, giveUp_late hc]
  rfl

theorem finish_late (hc : ¬ c.desk.store.isCurrent id) (data : Value)
    (make : LexiconData → Lexicon) :
    ∃ ns, ∀ announce, finish announce c id data make = (c.logged ns, unreadable? data) := by
  unfold finish unreadable?
  cases LexiconData.ofValue data with
  | ok entries =>
    refine ⟨[.lateLexicon (c.loadOf id).tag], ?_⟩
    intro announce
    simp only [installLoaded, installLoaded_late hc]
    rfl
  | error f =>
    by_cases hf : f.isShape
    · obtain ⟨ns, hns⟩ := failLoad_late hc (.failed f.message) (.data f)
      refine ⟨ns, ?_⟩
      intro announce
      cases f with
      | longNumber => contradiction
      | _ => exact hns announce
    · refine ⟨[], ?_⟩
      intro announce
      cases f with
      | longNumber => simp [LexiconData.Fault.isShape, logged_nil]
      | _ => exact absurd rfl hf

theorem take_late {t : Turn} (ht : t.load? = some id) (hc : ¬ c.desk.store.isCurrent id) :
    ∃ ns f, ∀ announce, take announce c t = (c.logged ns, f) := by
  cases t with
  | success s =>
    cases s with
    | extendLoad j base data =>
      obtain rfl := Option.some.inj ht
      simp only [take, succeed]
      cases c.desk.lexicon? base with
      | none =>
        refine ⟨[], some (.load (c.loadOf j).tag (.baseMissing base) none), ?_⟩
        intro announce
        rw [logged_nil]
      | some l =>
        obtain ⟨ns, hns⟩ := finish_late hc data (l.derive (c.loadOf j).tag)
        exact ⟨ns, _, hns⟩
    | _ => contradiction
  | failure f w =>
    cases w with
    | abandonLoad j base =>
      obtain rfl := Option.some.inj ht
      let c' := c.note (.baseFailed (c.loadOf j).tag base f.message)
      have hc' : ¬ c'.desk.store.isCurrent j := hc
      obtain ⟨ns, hns⟩ := failLoad_late hc' (.baseFailed base) f
      refine ⟨.baseFailed (c.loadOf j).tag base f.message :: ns, none, ?_⟩
      intro announce
      have heq : c'.logged ns = c.logged (.baseFailed (c.loadOf j).tag base f.message :: ns) := by
        simp [c', logged, note, Desk.note]
      rw [← heq]
      exact hns announce
    | _ => contradiction
  | finish j data base =>
    obtain rfl := Option.some.inj ht
    obtain ⟨ns, hns⟩ := finish_late hc data (overlaid (c.loadOf j).tag base)
    exact ⟨ns, _, hns⟩
  | giveUp j why cause =>
    obtain rfl := Option.some.inj ht
    obtain ⟨ns, hns⟩ := failLoad_late hc why cause
    exact ⟨ns, _, hns⟩
  | _ => contradiction

end Turns

section Deliver

variable {c : Coordinator} {id : Nat} {base : Option String}

theorem absent_base (hb : ¬ ∀ b ∈ base, b = (c.loadOf id).tag ∨ c.desk.store.contains b) :
    ∃ b, base = some b ∧ b ≠ (c.loadOf id).tag ∧ ¬ c.desk.store.contains b := by
  cases base with
  | none => exact absurd nofun hb
  | some b =>
    refine ⟨b, rfl, ?_, ?_⟩
    · rintro rfl
      apply hb
      rintro _ ⟨rfl⟩
      exact Or.inl rfl
    · intro ht
      apply hb
      rintro _ ⟨rfl⟩
      exact Or.inr ht

theorem current_answered (hid : id < c.desk.store.loads.length) (hs : c.desk.Sound) :
    (c.answered id).desk.store.isCurrent id ↔ c.desk.store.isCurrent id :=
  (prepares_answered hs id).current hid

theorem deliver_late (hs : c.desk.Sound) (hid : id < c.desk.store.loads.length)
    (hc : ¬ c.desk.store.isCurrent id)
    (hb : ∀ b ∈ base, b = (c.loadOf id).tag ∨ c.desk.store.contains b) (data : Value) :
    ∃ ns, c.deliver id (.resource ⟨data, base⟩) =
      ((c.answered id).logged ns,
        if base = some (c.loadOf id).tag then none else unreadable? data) := by
  have hp := prepares_answered hs id
  have hc' : ¬ (c.answered id).desk.store.isCurrent id := by
    rw [current_answered hid hs]
    exact hc
  cases base with
  | none =>
    obtain ⟨ns, hns⟩ := finish_late hc' data (overlaid ((c.answered id).loadOf id).tag none)
    refine ⟨ns, ?_⟩
    rw [deliver_plain hs hid, if_neg nofun]
    exact hns announce
  | some b =>
    by_cases he : b = (c.loadOf id).tag
    · obtain ⟨ns, hns⟩ := failLoad_late hc' .ownBase (.ownBaseResource b)
      refine ⟨ns, ?_⟩
      rw [deliver_own he, if_pos (congrArg some he)]
      exact hns announce
    · have ht := (hb b rfl).resolve_left he
      obtain ⟨l, hl⟩ := Option.isSome_iff_exists.mp (hp.sound.lexicon? (t := b) ht)
      obtain ⟨ns, hns⟩ := finish_late hc' data (l.derive ((c.answered id).loadOf id).tag)
      refine ⟨ns, ?_⟩
      have hne : ¬ some b = some (c.loadOf id).tag := fun h => he (Option.some.inj h)
      rw [deliver_based he, if_neg hne]
      rcases ensure_cases hp.sound b (loadWaiter id b data) with ⟨-, heq⟩ | ⟨j, d, -, hq⟩
      · rw [heq]
        simp only [take, loadWaiter, succeed, hl]
        exact hns announce
      · exact absurd ht hq.absent

theorem faultOf_fst {α : Type} (s : Coordinator × Except Fault α) : (faultOf s).1 = s.1 := by
  rcases s with ⟨c, _ | x⟩
  · rfl
  · rfl

theorem armed_ensure {tag : String} (ht : ¬ c.desk.store.contains tag)
    (hp : c.desk.store.pending.get? tag = none) (w : Waiter Success Failure) :
    ((faultOf (c.ensure tag w)).1.loadOf c.desk.store.loads.length).timer = .armed := by
  have hlt : c.desk.store.loads.length < (c.desk.store.create tag w).loads.length := by
    simp [Store.create]
  have hstart := Desk.load_start_self (c.desk.withStore (c.desk.store.create tag w)) hlt
  have heq : (c.ensure tag w).1.desk =
      (c.desk.withStore (c.desk.store.create tag w)).start c.desk.store.loads.length := by
    simp only [ensure, Store.register, if_neg ht, hp]
    rfl
  rw [faultOf_fst, loadOf_eq, heq, hstart]

/-- A late resource whose base is not there asks for the base like any other request. -/
theorem deliver_late_based {b : String} (hs : c.desk.Sound) (hb : b ≠ (c.loadOf id).tag)
    (ht : ¬ c.desk.store.contains b) (data : Value) :
    ∃ j d, c.deliver id (.resource ⟨data, some b⟩) = ({ c.answered id with desk := d }, none) ∧
      (c.answered id).desk.Queues b (loadWaiter id b data) j d ∧
      (c.desk.store.pending.get? b = none → (d.store.load j).timer = .armed) := by
  rw [deliver_based hb]
  rcases ensure_cases (prepares_answered hs id).sound b (loadWaiter id b data) with
    ⟨h, -⟩ | ⟨j, d, heq, hq⟩
  · exact absurd h ht
  · refine ⟨j, d, heq, hq, ?_⟩
    intro hp
    have hj : j = (c.answered id).desk.store.loads.length := by
      rcases hq.was with h | ⟨-, h⟩
      · exact absurd (h.symm.trans hp) nofun
      · exact h
    have harmed := armed_ensure (c := c.answered id) ht hp (loadWaiter id b data)
    rw [heq, ← hj] at harmed
    exact harmed

end Deliver

/-- What an event of the load `id`, which is one for `t`, leaves as it is: all that is installed,
the load that is pending for `t`, all other loads for `t`, and how every load stands. Nobody is
told anything. -/
structure Spares (id : Nat) (t : String) (c c' : Coordinator) : Prop where
  shelf : c'.desk.shelf = c.desk.shelf
  installed : c'.desk.store.installed = c.desk.store.installed
  pending : c'.desk.store.pending.get? t = c.desk.store.pending.get? t
  load : ∀ j, j < c.desk.store.loads.length → (c.loadOf j).tag = t → j ≠ id →
    c'.loadOf j = c.loadOf j
  standing : ∀ j, j < c.desk.store.loads.length → (c'.loadOf j).standing = (c.loadOf j).standing
  waiters : (c'.loadOf id).waiters = (c.loadOf id).waiters
  client : c'.client = c.client

section Spares

variable {c d : Coordinator} {id : Nat} {t : String}

theorem spares_self : Spares id t c c := by
  constructor <;> intros <;> rfl

theorem spares_modify {f : Load Success Failure → Load Success Failure}
    (hstore : d.desk.store = c.desk.store.modify id f) (hshelf : d.desk.shelf = c.desk.shelf)
    (hclient : d.client = c.client)
    (hf : ∀ l, (f l).waiters = l.waiters ∧ (f l).standing = l.standing) : Spares id t c d := by
  constructor
  · exact hshelf
  · rw [hstore]
    rfl
  · rw [hstore]
    rfl
  · intro j _ _ hj
    rw [loadOf_eq, hstore]
    exact Store.load_modify_ne f hj
  · intro j _
    rw [loadOf_eq, loadOf_eq, hstore]
    rcases Store.load_modify_cases c.desk.store id f j with h | ⟨-, h⟩
    · rw [h]
    · rw [h, (hf _).2]
  · rw [loadOf_eq, loadOf_eq, hstore]
    exact Store.waiters_modify (fun l => (hf l).1) _ id id
  · exact hclient

theorem Spares.logged (h : Spares id t c d) (ns : List Notice) : Spares id t c (d.logged ns) :=
  ⟨h.shelf, h.installed, h.pending, h.load, h.standing, h.waiters, h.client⟩

theorem spares_answered : Spares id t c (c.answered id) := by
  apply spares_modify (f := fun l => { l with fetch := .finished })
  · rfl
  · rfl
  · rfl
  · intro l
    exact ⟨rfl, rfl⟩

theorem spares_fired : Spares id t c (c.fired id) := by
  apply spares_modify (f := fun l => { l with timer := .fired })
  · rfl
  · rfl
  · rfl
  · intro l
    exact ⟨rfl, rfl⟩

theorem Spares.queued {N : Ticket → Prop} {o : Occasion} {b : String} {w : Waiter Success Failure}
    {q : Nat} {e : Desk Success Failure} (h : Spares id t c d) (hp : Prepares N o c d)
    (hid : id < c.desk.store.loads.length) (ht : (c.loadOf id).tag = t) (hb : b ≠ t)
    (hq : d.desk.Queues b w q e) : Spares id t c { d with desk := e } := by
  have hlt : ∀ {j}, j < c.desk.store.loads.length → j < d.desk.store.loads.length :=
    fun hj => Nat.lt_of_lt_of_le hj hp.length
  have hne : ∀ j, j < c.desk.store.loads.length → (c.loadOf j).tag = t → j ≠ q := by
    rintro j hj hjt rfl
    have heq := hq.tag_eq hp.sound.store (hlt hj)
    rw [hq.tag, ← loadOf_eq, hp.tag hj, hjt] at heq
    exact hb heq
  constructor
  · rw [← h.shelf]
    exact hq.shelf
  · rw [← h.installed]
    exact hq.installed
  · rw [← h.pending, hq.pending, if_neg (Ne.symm hb)]
  · intro j hj hjt hji
    rw [← h.load j hj hjt hji]
    exact hq.other j (hne j hj hjt)
  · intro j hj
    rw [← h.standing j hj]
    exact hq.standing_eq hp.sound.store (hlt hj)
  · rw [← h.waiters, loadOf_eq, hq.other id (hne id hid ht)]
    rfl
  · exact h.client

theorem spares_deliver (hs : c.desk.Sound) (hid : id < c.desk.store.loads.length)
    (hc : ¬ c.desk.store.isCurrent id) (result : Except Fault Resource) :
    Spares id (c.loadOf id).tag c (c.act (.deliver id result)).1 := by
  have hp := prepares_answered hs id
  rw [act]
  split
  · cases result with
    | error f =>
      have hc' : ¬ (c.answered id).desk.store.isCurrent id := by
        rw [current_answered hid hs]
        exact hc
      cases hf : f.text with
      | ok reason =>
        obtain ⟨ns, hns⟩ := failLoad_late hc' (.failed reason) f
        rw [delivery, deliver_fault c id hf, take, hns]
        exact spares_answered.logged ns
      | error g =>
        rw [delivery, deliver_wordless c id hf]
        exact spares_answered
    | ok r =>
      obtain ⟨data, base⟩ := r
      by_cases hb : ∀ b ∈ base, b = (c.loadOf id).tag ∨ c.desk.store.contains b
      · obtain ⟨ns, hns⟩ := deliver_late hs hid hc hb data
        rw [delivery, hns]
        exact spares_answered.logged ns
      · obtain ⟨b, rfl, hne, ht⟩ := absent_base hb
        obtain ⟨j, d, heq, hq, -⟩ := deliver_late_based hs hne ht data
        rw [delivery, heq]
        exact spares_answered.queued hp hid rfl hne hq
  · exact spares_self

theorem spares_expire (hs : c.desk.Sound) (hid : id < c.desk.store.loads.length)
    (hc : ¬ c.desk.store.isCurrent id) : Spares id t c (c.act (.expire id)).1 := by
  have hc' : ¬ (c.fired id).desk.store.isCurrent id := by
    rw [(prepares_fired hs id).current hid]
    exact hc
  rw [act]
  generalize c.elapse id = s, elapses hs id = h
  cases h with
  | never => exact spares_self
  | late => exact spares_fired
  | ends _ he _ => exact absurd he.settles.current hc'

end Spares

/-- The states that a coordinator passes through from now on, between its steps and within them:
a step prepares, and then loads are settled and waiters are told. -/
inductive Onward (c : Coordinator) : Coordinator → Prop where
  | here : Onward c c
  | prepares {d p N o} (h : Onward c d) (hp : Prepares N o d p) : Onward c p
  | later {d e} (h : Onward c d) (hl : Later d e) : Onward c e

theorem Onward.settled {c d : Coordinator} {id : Nat} (h : Onward c d)
    (hid : id < c.desk.store.loads.length) (hc : ¬ c.desk.store.isCurrent id) :
    id < d.desk.store.loads.length ∧ ¬ d.desk.store.isCurrent id := by
  induction h with
  | here => exact ⟨hid, hc⟩
  | prepares _ hp ih =>
    obtain ⟨hlt, hn⟩ := ih
    exact ⟨Nat.lt_of_lt_of_le hlt hp.length, fun hh => hn ((hp.current hlt).mp hh)⟩
  | later _ hl ih =>
    obtain ⟨hlt, hn⟩ := ih
    exact ⟨hl.desk.length ▸ hlt, fun hh => hn (hl.desk.isCurrent hh)⟩

theorem Onward.run {c d : Coordinator} (h : Onward c d) (hd : d.Sound) (as : List Action) :
    Onward c (run d as) := by
  induction as generalizing d with
  | nil => exact h
  | cons a as ih =>
    obtain ⟨N, hm, -⟩ := move_act hd.desk a
    obtain ⟨p, hp, hl, hs⟩ := hm.prepares hd
    exact ih ((h.prepares hp).later hl) hs

/-- The states between the turns of an announcement are among them. -/
theorem Onward.fanout {c d : Coordinator} (h : Onward c d) (hs : d.desk.Sound) (ts : List Turn) :
    Onward c (fanout d ts).1 :=
  h.later (forEach_keeps announce_keeps hs ts).2

/-- After a load was settled, in whatever way, what comes of its errand and its timer at any later
time leaves its tag alone. So does its continuation, in whatever later state of whatever step it is
run: it only writes to the log, whoever would make announcements. -/
theorem settled_load_is_dead (service : Service) (client : Client) (id : Nat) :
    (∀ before after : List Action,
      let c₀ := run (start service client) before
      let c := run c₀ after
      id < c₀.desk.store.loads.length → ¬ c₀.desk.store.isCurrent id →
        (∀ result, Spares id (c.loadOf id).tag c (c.act (.deliver id result)).1) ∧
        Spares id (c.loadOf id).tag c (c.act (.expire id)).1) ∧
    ∀ d₀ d, Onward (start service client) d₀ →
      id < d₀.desk.store.loads.length → ¬ d₀.desk.store.isCurrent id → Onward d₀ d →
        ∀ t : Turn, t.load? = some id →
          ∃ ns f, ∀ announce, take announce d t = (d.logged ns, f) := by
  constructor
  · intro before after c₀ c hid₀ hc₀
    have hs₀ : c₀.Sound := Driver.sound_run (d := driver) (sound_start service client) before
    have hs : c.Sound := Driver.sound_run (d := driver) hs₀ after
    obtain ⟨hid, hc⟩ := (Onward.here.run hs₀ after).settled hid₀ hc₀
    constructor
    · intro result
      exact spares_deliver hs.desk hid hc result
    · exact spares_expire hs.desk hid hc
  · intro d₀ d _ hid₀ hc₀ h t ht
    exact take_late ht (h.settled hid₀ hc₀).2

/-- The first load failed, and the second is under way when the timer of the first fires. -/
theorem settled_load_is_dead_retried :
    let service : Service := ⟨true, ⟨.whole 5, rfl⟩, ""⟩
    let client : Client := ⟨[], [], [], 0, .broken, "*"⟩
    let request : Action := .ensure "t" (.function ⟨"ok", none⟩) none
    let before : List Action := [request, .deliver 0 (.error .noAttribute)]
    let c₀ := run (start service client) before
    let c := run c₀ [request]
    0 < c₀.desk.store.loads.length ∧ ¬ c₀.desk.store.isCurrent 0 ∧
      c.desk.store.pending.get? "t" = some 1 ∧ Spares 0 "t" c (c.act (.expire 0)).1 ∧
      ∃ ns f, ∀ announce, take announce c (.failure .pending (.abandonLoad 0 "b")) =
        (c.logged ns, f) := by
  intro service client request before c₀ c
  have hid : 0 < c₀.desk.store.loads.length := by decide
  have hc : ¬ c₀.desk.store.isCurrent 0 := by decide
  have ht : (c.loadOf 0).tag = "t" := by decide
  have hp : c.desk.store.pending.get? "t" = some 1 := by decide
  have hs := sound_start service client
  have h₀ : Onward (start service client) c₀ := Onward.here.run hs before
  have h : Onward c₀ c := Onward.here.run (Driver.sound_run (d := driver) hs before) [request]
  obtain ⟨hevents, hturns⟩ := settled_load_is_dead service client 0
  obtain ⟨-, hexpire⟩ := hevents before [request] hid hc
  have hturn := hturns c₀ c h₀ hid hc h (.failure .pending (.abandonLoad 0 "b")) rfl
  refine ⟨hid, hc, hp, ?_, hturn⟩
  rw [← ht]
  exact hexpire

/-- Nothing is changed but the log, and the errand of one load is over. -/
structure Unmoved (id : Nat) (c c' : Coordinator) : Prop where
  shelf : c'.desk.shelf = c.desk.shelf
  installed : c'.desk.store.installed = c.desk.store.installed
  pending : c'.desk.store.pending = c.desk.store.pending
  length : c'.desk.store.loads.length = c.desk.store.loads.length
  load : ∀ j, j ≠ id → c'.loadOf j = c.loadOf j
  own : c'.loadOf id = { c.loadOf id with fetch := .finished }
  calls : c'.desk.calls = c.desk.calls ++ [((c.loadOf id).tag, c.desk.service.baseUrl)]
  client : c'.client = c.client

theorem unmoved_answered {c : Coordinator} {id : Nat} (hid : id < c.desk.store.loads.length)
    (ns : List Notice) : Unmoved id c ((c.answered id).logged ns) := by
  constructor
  · rfl
  · rfl
  · rfl
  · exact Store.length_modify _ _ _
  · intro j hj
    exact Store.load_modify_ne _ hj
  · exact Store.load_modify_self (fun l => { l with fetch := .finished }) hid
  · rfl
  · rfl

theorem Unmoved.not_queued {c : Coordinator} {id j : Nat} {b : String} {w : Waiter Success Failure}
    {d : Desk Success Failure} (h : Unmoved id c { c.answered id with desk := d })
    (hq : (c.answered id).desk.Queues b w j d) : False := by
  have hlen := congrArg List.length hq.waiters
  have hsame : (d.store.load j).waiters = ((c.answered id).desk.store.load j).waiters := by
    have hanswered : ((c.answered id).desk.store.load j).waiters = (c.loadOf j).waiters :=
      Store.waiters_modify (f := fun l => { l with fetch := .finished }) (fun _ => rfl) _ id j
    rw [hanswered]
    by_cases hj : j = id
    · subst hj
      have hown := congrArg Load.waiters h.own
      exact hown
    · exact congrArg Load.waiters (h.load j hj)
  rw [hsame, List.length_append] at hlen
  simp at hlen

/-- A resource that arrives after its load was settled is dropped, with nothing changed but the log,
if and only if it names no base, or its own tag, or a base that is there. Otherwise it is queued at
the load of its base, and if there was no such load it makes one, with a timer and an errand. The
step raises nothing, unless the data have a key that the message about them cannot show. -/
theorem late_resource_dropped_iff (service : Service) (client : Client) (before : List Action)
    (id : Nat) (data : Value) (base : Option String) :
    let c := run (start service client) before
    let s := c.act (.deliver id (.ok ⟨data, base⟩))
    (c.loadOf id).fetch = .outstanding → ¬ c.desk.store.isCurrent id →
      (Unmoved id c s.1 ↔ ∀ b ∈ base, b = (c.loadOf id).tag ∨ c.desk.store.contains b) ∧
      (∀ b ∈ base, b ≠ (c.loadOf id).tag → ¬ c.desk.store.contains b →
        ∃ j, s.1.desk.store.pending.get? b = some j ∧
          loadWaiter id b data ∈ (s.1.loadOf j).waiters ∧
          (c.desk.store.pending.get? b = none → j = c.desk.store.loads.length ∧
            (s.1.loadOf j).timer = .armed ∧
            (service.hasLoader → (s.1.loadOf j).fetch = .outstanding))) ∧
      ((∀ b ∈ base, b ≠ (c.loadOf id).tag ∧ c.desk.store.contains b) → s.2 = unreadable? data) ∧
      (¬ (∀ b ∈ base, b ≠ (c.loadOf id).tag ∧ c.desk.store.contains b) → s.2 = none) := by
  intro c s hout hc
  have hs : c.Sound := Driver.sound_run (d := driver) (sound_start service client) before
  have hid := lt_of_outstanding hout
  have heq : s = c.deliver id (.resource ⟨data, base⟩) := if_pos hout
  by_cases hb : ∀ b ∈ base, b = (c.loadOf id).tag ∨ c.desk.store.contains b
  · obtain ⟨ns, hns⟩ := deliver_late hs.desk hid hc hb data
    rw [heq, hns]
    refine ⟨?_, ?_, ?_, ?_⟩
    · exact ⟨fun _ => hb, fun _ => unmoved_answered hid ns⟩
    · intro b hm hne ht
      exact absurd ((hb b hm).resolve_left hne) ht
    · intro h
      apply if_neg
      intro hown
      exact (h _ hown).1 rfl
    · intro h
      apply if_pos
      cases base with
      | none => exact absurd nofun h
      | some b =>
        rcases hb b rfl with rfl | ht
        · rfl
        · by_cases he : b = (c.loadOf id).tag
          · rw [he]
          · refine absurd ?_ h
            rintro _ ⟨rfl⟩
            exact ⟨he, ht⟩
  · obtain ⟨b, rfl, hne, ht⟩ := absent_base hb
    obtain ⟨j, d, hd, hq, harmed⟩ := deliver_late_based hs.desk hne ht data
    rw [heq, hd]
    refine ⟨?_, ?_, ?_, ?_⟩
    · exact ⟨fun h => absurd hq h.not_queued, fun h => absurd h hb⟩
    · rintro _ ⟨rfl⟩ - -
      refine ⟨j, ?_, ?_, ?_⟩
      · exact (hq.pending b).trans (if_pos rfl)
      · rw [loadOf_eq, hq.waiters]
        exact List.mem_append_right _ (List.mem_singleton.mpr rfl)
      · intro hp
        have hj : j = c.desk.store.loads.length := by
          rcases hq.was with h | ⟨-, h⟩
          · exact absurd (h.symm.trans hp) nofun
          · exact h.trans (Store.length_modify _ _ _)
        refine ⟨hj, harmed hp, ?_⟩
        intro hl
        have hservice : c.desk.service = service :=
          Driver.service_run (d := driver) (sound_start service client) before
        apply hq.started
        · exact hj.trans (Store.length_modify _ _ _).symm
        · rw [← hservice] at hl
          exact hl
    · intro h
      exact absurd (h b rfl).2 ht
    · intro _
      rfl

/-- The lexicon was installed while its load was out, and the resource names a base nobody has. -/
theorem late_resource_dropped_iff_satisfied :
    let service : Service := ⟨true, ⟨.whole 5, rfl⟩, ""⟩
    let client : Client := ⟨[], [], [], 0, .broken, "*"⟩
    let before : List Action := [.ensure "t" (.function ⟨"ok", none⟩) none, .install (.empty "t")]
    let c := run (start service client) before
    let s := c.act (.deliver 0 (.ok ⟨.map [], some "b"⟩))
    (c.loadOf 0).fetch = .outstanding ∧ ¬ c.desk.store.isCurrent 0 ∧ ¬ Unmoved 0 c s.1 ∧
      s.1.desk.store.pending.get? "b" = some 1 ∧ (s.1.loadOf 1).timer = .armed ∧
      (s.1.loadOf 1).fetch = .outstanding ∧ s.2 = none := by
  intro service client before c s
  have hout : (c.loadOf 0).fetch = .outstanding := by decide
  have hc : ¬ c.desk.store.isCurrent 0 := by decide
  have hb : "b" ≠ (c.loadOf 0).tag := by decide
  have ht : ¬ c.desk.store.contains "b" := by decide
  have hp : c.desk.store.pending.get? "b" = none := by decide
  obtain ⟨hdropped, hasked, -, hraised⟩ :=
    late_resource_dropped_iff service client before 0 (.map []) (some "b") hout hc
  obtain ⟨j, hj, -, hnew⟩ := hasked "b" rfl hb ht
  obtain ⟨hj₁, htimer, hfetch⟩ := hnew hp
  have hlen : c.desk.store.loads.length = 1 := by decide
  rw [hlen] at hj₁
  subst hj₁
  refine ⟨hout, hc, ?_, hj, htimer, hfetch rfl, ?_⟩
  · intro h
    rcases hdropped.mp h "b" rfl with he | hi
    · exact hb he
    · exact ht hi
  · apply hraised
    intro h
    exact ht (h "b" rfl).2

end Coordinator

end Phrasebook
