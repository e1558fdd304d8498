import Phrasebook.Locale.Catalogue
import Phrasebook.Proofs.Loading.Exclusion
import Phrasebook.Proofs.Loading.Once

/-!
# Handles are delivered

A request for a handle is resolved to a tag by the call. It is answered by the call if there is no
such tag, or if the lexicon of the tag is there; otherwise it waits for the current load of the tag
and is answered in the step that settles this load. Its promise is settled in one turn, with the
lexicon that is installed under the tag at that moment, and the callback that applies is called in
the same turn with the same handle or fault.
-/

namespace Phrasebook

abbrev HandleRequest.of (request promise : Nat) (tag : String)
    (onSuccess onError : Option Callback) : HandleRequest :=
  ⟨request, promise, tag, onSuccess.map .function, onError.map .function⟩

namespace Client

/-- What has become of a request for a handle: its promise, and the callbacks that were called. -/
def answer (c : Client) (request promise : Nat) : Option Promise × List Event :=
  (c.promises[promise]?, c.log request)

def unanswered : Option Promise × List Event := (some .pending, [])

def ready (request : Nat) (onSuccess : Option Callback) (x : Handle) :
    Option Promise × List Event :=
  (some (.kept (.handle x)), (onSuccess.map fun g => ⟨request, g.name, .ready x⟩).toList)

def refused (request : Nat) (onError : Option Callback) (f : Fault) :
    Option Promise × List Event :=
  (some (.broken f), (onError.map fun g => ⟨request, g.name, .failed f⟩).toList)

/-- A promise that was open is settled, and then the callback that applies is called, if there is
one. -/
inductive Replies (c : Client) (request promise : Nat) (q : Promise) (m : Message) :
    Option Callback → Client → Prop where
  | silent {d : Client} (fresh : c.answer request promise = unanswered)
      (settled : d.answer request promise = (some q, [])) :
      Replies c request promise q m none d
  | calls {e : Client} {g} (fresh : c.answer request promise = unanswered)
      (settled : e.answer request promise = (some q, [])) :
      Replies c request promise q m (some g) (e.call request (.function g) m).1

section Answer

variable {c d : Client} {r p : Nat} {tag : String} {onSuccess onError : Option Callback}

theorem answer_eq_of_seen (hr : d.seen (.request r) = c.seen (.request r))
    (hp : d.seen (.promise p) = c.seen (.promise p)) : d.answer r p = c.answer r p :=
  Prod.ext (congrArg Prod.snd hp) (congrArg Prod.fst hr)

theorem settle_eq_of_pending (h : c.promises[p]? = some .pending) (q : Promise) :
    c.settle p q = ({ c with promises := c.promises.set p q }, none) := by
  simp only [settle, h]

theorem promises_set (h : c.promises[p]? = some .pending) (q : Promise) :
    (c.promises.set p q)[p]? = some q :=
  List.getElem?_set_self (List.getElem?_eq_some_iff.mp h).1

theorem log_call (c : Client) (g : Callback) (m : Message) :
    (c.call r (.function g) m).1.log r = c.log r ++ [⟨r, g.name, m⟩] := by
  simp [log, call]

theorem Replies.answer {q : Promise} {m : Message} {g : Option Callback}
    (h : c.Replies r p q m g d) :
    d.answer r p = (some q, (g.map fun g => ⟨r, g.name, m⟩).toList) := by
  cases h with
  | silent _ settled => exact settled
  | @calls e g _ settled =>
    obtain ⟨hq, hlog⟩ := Prod.mk.inj settled
    exact Prod.ext hq ((log_call e g m).trans (congrArg (· ++ _) hlog))

theorem replies_deliver (h : c.answer r p = unanswered) (x : Handle) :
    c.Replies r p (.kept (.handle x)) (.ready x) onSuccess
      (c.deliver (.of r p tag onSuccess onError) x).1 := by
  obtain ⟨hp, hlog⟩ := Prod.mk.inj h
  have hkept := promises_set hp (.kept (.handle x))
  simp only [deliver, settle_eq_of_pending hp]
  cases onSuccess with
  | none => exact .silent h (Prod.ext hkept hlog)
  | some g => exact .calls h (Prod.ext hkept hlog)

/-- The promise of whoever asked is broken before the callback for failure is called. The fault is
raised if there is only a callback for success. -/
theorem replies_refuse (h : c.answer r p = unanswered) (f : Fault) :
    let s := c.refuse (.of r p tag onSuccess onError) f
    c.Replies r p (.broken f) (.failed f) onError s.1 ∧
      (onSuccess.isSome → onError = none → s.2 = some f) := by
  intro s
  obtain ⟨hp, hlog⟩ := Prod.mk.inj h
  have hbroken := promises_set hp (.broken f)
  simp only [s, refuse, settle_eq_of_pending hp]
  cases onError with
  | some g => exact ⟨.calls h (Prod.ext hbroken hlog), nofun⟩
  | none =>
    cases onSuccess with
    | some g => exact ⟨.silent h (Prod.ext hbroken hlog), fun _ _ => rfl⟩
    | none => exact ⟨.silent h (Prod.ext hbroken hlog), nofun⟩

end Answer

end Client

namespace Coordinator

structure Equipped (s : Setup) (config : Config) (c : Coordinator) : Prop where
  factory : c.client.factory = s.factory
  defaultDomain : c.client.defaultDomain = config.defaultDomain

section Equipped

variable {s : Setup} {config : Config} {c d : Coordinator}

theorem Equipped.prepares {N : Ticket → Prop} {o : Occasion} (h : Equipped s config c)
    (hp : Prepares N o c d) : Equipped s config d :=
  ⟨hp.client.factory.trans h.factory, hp.client.defaultDomain.trans h.defaultDomain⟩

theorem Equipped.later (h : Equipped s config c) (hl : Later c d) : Equipped s config d :=
  ⟨hl.client.factory.trans h.factory, hl.client.defaultDomain.trans h.defaultDomain⟩

theorem Equipped.alike (h : Equipped s config c) (ha : Alike c d) : Equipped s config d :=
  ⟨ha.client.factory.trans h.factory, ha.client.defaultDomain.trans h.defaultDomain⟩

end Equipped

def handleWaiter (r : HandleRequest) : Waiter Success Failure :=
  ⟨.listener (.handle r), some (.listener (.handle r))⟩

section Turns

variable {c : Coordinator} {r p place : Nat} {fallback : Fallback}

theorem replies_success (tag : String) (onSuccess onError : Option Callback)
    (h : c.client.answer r p = Client.unanswered) (hf : c.client.factory = .handles fallback)
    (hplace : c.desk.store.get? tag = some place) :
    let x : Handle := ⟨place, tag, c.client.defaultDomain, fallback⟩
    c.client.Replies r p (.kept (.handle x)) (.ready x) onSuccess
      (take announce c
        (.success (.listener (.handle (.of r p tag onSuccess onError))))).1.client := by
  have hmake : c.client.makeHandle place tag =
      .ok ⟨place, tag, c.client.defaultDomain, fallback⟩ := by
    simp only [Client.makeHandle, hf]
  simp only [take, succeed, Client.hearSuccess, hplace, hmake]
  exact Client.replies_deliver h _

theorem replies_failure (tag : String) (onSuccess onError : Option Callback)
    (h : c.client.answer r p = Client.unanswered) (f : Fault) :
    let s := take announce c (.failure f (.listener (.handle (.of r p tag onSuccess onError))))
    c.client.Replies r p (.broken f) (.failed f) onError s.1.client ∧
      (onSuccess.isSome → onError = none → s.2 = some f) :=
  Client.replies_refuse h f

end Turns

end Coordinator

namespace Localizer

open Coordinator

theorem faultOf_fst {α : Type} (s : Localizer × Except Fault α) : (faultOf s).1 = s.1 := by
  rcases s with ⟨l, _ | x⟩ <;> rfl

section Deeds

variable {l : Localizer} {a : Action} {k : Ticket}

theorem holds_definition {tag : String} {data : Value} {base : Option String}
    {installed failed : Option Reporter}
    (h : (Deed.definition tag data base installed failed).Holds k) :
    (∃ r ∈ installed, r.Holds k) ∨ ∃ r ∈ failed, r.Holds k := by
  unfold Deed.definition at h
  split at h
  · exact h.elim
  · exact Or.inl h
  · split at h
    · exact h.elim
    · rcases h with h | ⟨_, ⟨rfl⟩, h⟩
      · exact Or.inl h
      · exact Or.inr h

theorem not_holds_errand {c : Coordinator} {id : Nat} {d : Delivery} :
    ¬ (Deed.errand c id d).Holds k := by
  intro h
  generalize hdeed : Deed.errand c id d = deed at h
  rcases errand_concludes hdeed with rfl | ⟨-, hc⟩
  · exact h
  · cases hc with
    | base =>
      rcases h with h | ⟨_, ⟨rfl⟩, h⟩
      · exact h
      · exact h
    | _ => exact h

theorem unissued_of_deed (h : (a.deed l).Holds k) : ¬ k.Issued l.client := by
  have hrequest : k = .request l.client.requests → ¬ k.Issued l.client := fun he =>
    unissued_of_nextTicket (Or.inl he)
  cases a with
  | getHandle requested onSuccess onError =>
    apply unissued_of_nextTicket
    simp only [Action.deed, Action.handleDeed] at h
    split at h
    · exact h
    · rcases h with h | ⟨_, ⟨rfl⟩, h⟩
      · exact h
      · exact h
  | ensureLoaded tag onSuccess onError =>
    simp only [Action.deed, Deed.request] at h
    split at h
    · exact h.elim
    · exact hrequest (holds_callerWaiter h)
  | defineLexicon tag data base =>
    apply unissued_of_nextTicket
    rcases holds_definition h with ⟨_, ⟨rfl⟩, h⟩ | ⟨_, ⟨rfl⟩, h⟩
    · exact Or.inr h
    · exact Or.inr h
  | define tag data base onInstalled onFailed =>
    rcases holds_definition h with ⟨r, hr, h⟩ | ⟨r, hr, h⟩
    · exact hrequest (holds_caller r hr k h)
    · exact hrequest (holds_caller r hr k h)
  | deliver id d => exact (not_holds_errand h).elim
  | _ => exact h.elim

theorem course_act (hs : l.coordinator.desk.Sound) (hb : (a.base l).desk.Sound) :
    ∃ is, Course (a.base l) (a.deed l) (seenStep (l.act a)) is := by
  obtain ⟨is, hc⟩ := course_perform hb (a.deed l)
  exact ⟨is, act_eq hs a ▸ hc⟩

end Deeds

/-- A turn that settles a promise finds it open, and one that calls back for a request finds that
nobody was called back before. -/
def FindsOpen (r p : Nat) (m : Localizer) (a : Action) : Prop :=
  ∀ is, Course (a.base m) (a.deed m) (seenStep (m.act a)) is →
    ∀ holder c₁ t raised, .turn holder c₁ t raised ∈ is →
      (t.Holds (.promise p) → c₁.client.promises[p]? = some .pending) ∧
        (t.Holds (.request r) → c₁.client.log r = [])

/-- How the step that ends the load of a tag answers a request for a handle of the tag: with a
handle for the lexicon that is installed when the turn of the request comes, or with the fault of
the load. -/
inductive Answered (m : Localizer) (a : Action) (id : Nat) (r : HandleRequest)
    (onSuccess onError : Option Callback) (defaultDomain : String) (fallback : Fallback) :
    Prop where
  | ready {is c₁ raised place}
      (standing : ((m.act a).1.coordinator.loadOf id).standing = .installed)
      (course : Course (a.base m) (a.deed m) (seenStep (m.act a)) is)
      (turn : .turn (some id) c₁ (.success (.listener (.handle r))) raised ∈ is)
      (found : c₁.desk.store.get? r.tag = some place)
      (reply : c₁.client.Replies r.request r.promise
        (.kept (.handle ⟨place, r.tag, defaultDomain, fallback⟩))
        (.ready ⟨place, r.tag, defaultDomain, fallback⟩) onSuccess
        (take announce c₁ (.success (.listener (.handle r)))).1.client)
      (answer : (m.act a).1.client.answer r.request r.promise =
        Client.ready r.request onSuccess ⟨place, r.tag, defaultDomain, fallback⟩)
  | refused {is c₁ raised why cause}
      (standing : ((m.act a).1.coordinator.loadOf id).standing = .abandoned)
      (course : Course (a.base m) (a.deed m) (seenStep (m.act a)) is)
      (turn : .turn (some id) c₁ (.failure (.load r.tag why cause) (.listener (.handle r))) raised
        ∈ is)
      (reply : c₁.client.Replies r.request r.promise (.broken (.load r.tag why cause))
        (.failed (.load r.tag why cause)) onError
        (take announce c₁ (.failure (.load r.tag why cause) (.listener (.handle r)))).1.client)
      (answer : (m.act a).1.client.answer r.request r.promise =
        Client.refused r.request onError (.load r.tag why cause))
      (leaves : onSuccess.isSome → onError = none →
        .load r.tag why cause ∈ Fault.leavesAll (m.act a).2.toList)

section Steps

variable {l m : Localizer} {r p id : Nat} {a : Action} {k : Ticket} {tag : String}
  {onSuccess onError : Option Callback} {w : Waiter Success Failure} {is : List Incident}
  {setup : Setup} {config : Config} {fallback : Fallback}

/-- The tickets of a request for a handle: its number, and that of its promise. -/
def Mine (r p : Nat) (k : Ticket) : Prop := k = .request r ∨ k = .promise p

def Unheld (m : Localizer) (r p : Nat) : Prop :=
  ∀ k, Mine r p k → k.Issued m.client ∧ Confines (· ≠ k) m.coordinator

/-- A waiter of a load can be followed by both tickets of its request. -/
def WaitsAt (m : Localizer) (r p id : Nat) (w : Waiter Success Failure) : Prop :=
  ∀ k, Mine r p k → Tracks m.coordinator k id w

theorem answer_eq {c d : Client} (h : ∀ k, Mine r p k → d.seen k = c.seen k) :
    d.answer r p = c.answer r p :=
  Client.answer_eq_of_seen (h _ (Or.inl rfl)) (h _ (Or.inr rfl))

theorem findsOpen_of_unheld (hs : m.coordinator.Sound) (hk : Unheld m r p) (a : Action) :
    FindsOpen r p m a := by
  intro is hc holder c₁ t raised hm
  rcases alike_base m a with ⟨x, key, args, domain, rfl⟩ | halike
  · rw [hc.eq_nil] at hm
    exact absurd hm List.not_mem_nil
  · have hnone : ∀ k, Mine r p k → ¬ t.Holds k := by
      intro k hmine hh
      obtain ⟨hissued, hconf⟩ := hk k hmine
      have hconf' : Confines (· ≠ k) (a.base m) := by
        intro j x hx
        rw [halike.waiters] at hx
        exact hconf j x hx
      have hdeed : ∀ j, (a.deed m).Holds j → j ≠ k := by
        rintro j hj rfl
        exact unissued_of_deed hj hissued
      exact absurd rfl (hc.unheld (halike.sound hs.desk) hconf' hdeed hm hh)
    exact ⟨fun hh => absurd hh (hnone _ (Or.inr rfl)), fun hh => absurd hh (hnone _ (Or.inl rfl))⟩

theorem served_of_waits (hk : WaitsAt m r p id w)
    (halike : Alike m.coordinator (a.base m))
    (hc : Course (a.base m) (a.deed m) (seenStep (m.act a)) is) {holder : Option Nat}
    {c₁ : Coordinator} {t : Turn} {raised : Option Fault} (hm : .turn holder c₁ t raised ∈ is)
    (hmine : Mine r p k) (hh : t.Holds k) :
    m.desk.store.isCurrent id ∧ Served k m.coordinator c₁ t (m.act a).1.coordinator := by
  have htracks := hk k hmine
  obtain ⟨hcur, hserved⟩ := hc.served (halike.sound htracks.sound.desk)
    (htracks.sole.alike halike) (fun hd => unissued_of_deed hd htracks.issued) hm hh
  exact ⟨(halike.isCurrent id).mp hcur,
    hserved.unseen.trans (halike.client.seen htracks.issued), hserved.seen⟩

theorem findsOpen_of_waits (hk : WaitsAt m r p id w)
    (hopen : m.desk.store.isCurrent id → m.client.answer r p = Client.unanswered) (a : Action) :
    FindsOpen r p m a := by
  intro is hc holder c₁ t raised hm
  rcases alike_base m a with ⟨x, key, args, domain, rfl⟩ | halike
  · rw [hc.eq_nil] at hm
    exact absurd hm List.not_mem_nil
  · constructor
    · intro hh
      obtain ⟨hcur, hserved⟩ := served_of_waits hk halike hc hm (Or.inr rfl) hh
      exact (congrArg Prod.snd hserved.unseen).trans (Prod.mk.inj (hopen hcur)).1
    · intro hh
      obtain ⟨hcur, hserved⟩ := served_of_waits hk halike hc hm (Or.inl rfl) hh
      exact (congrArg Prod.fst hserved.unseen).trans (Prod.mk.inj (hopen hcur)).2

theorem WaitsAt.mem_base (hk : WaitsAt m r p id w) (halike : Alike m.coordinator (a.base m)) :
    w ∈ ((a.base m).loadOf id).waiters := by
  rw [halike.waiters]
  exact (hk _ (Or.inl rfl)).sole.mem

/-- When the turn of a request comes in a step, it is unanswered, and what the turn does is all that
the step does for it. -/
theorem answer_of_turn (hk : WaitsAt m r p id w)
    (halike : Alike m.coordinator (a.base m))
    (hc : Course (a.base m) (a.deed m) (seenStep (m.act a)) is) {holder : Option Nat}
    {c₁ : Coordinator} {t : Turn} {raised : Option Fault} (hm : .turn holder c₁ t raised ∈ is)
    (hh : ∀ k, Mine r p k → t.Holds k) :
    c₁.client.answer r p = m.client.answer r p ∧
      (m.act a).1.client.answer r p = (take announce c₁ t).1.client.answer r p :=
  ⟨answer_eq fun k hmine => (served_of_waits hk halike hc hm hmine (hh k hmine)).2.unseen,
    answer_eq fun k hmine => (served_of_waits hk halike hc hm hmine (hh k hmine)).2.seen⟩

section Ends

variable (hk : WaitsAt m r p id (handleWaiter (.of r p tag onSuccess onError)))
  (halike : Alike m.coordinator (a.base m)) (hopen : m.client.answer r p = Client.unanswered)
  (hc : Course (a.base m) (a.deed m) (seenStep (m.act a)) is)
include hk halike hopen hc

theorem ready_of_resolved (ho : Orderly m.coordinator) (he : Equipped setup config m.coordinator)
    (hf : setup.factory = .handles fallback)
    (hr : Resolved id none (a.base m) (m.act a).1.coordinator is) :
    Answered m a id (.of r p tag onSuccess onError) onSuccess onError config.defaultDomain
      fallback := by
  obtain ⟨c₁, raised, hm⟩ := hr.turn (hk.mem_base halike) rfl
  obtain ⟨hbefore, hafter⟩ := answer_of_turn hk halike hc hm fun _ hmine => hmine
  have hsteady := hc.steady (ho.alike halike) (fun _ _ => suits_of_ask) (deed_ne_success a)
  obtain ⟨l, hl, -⟩ := hsteady.found _ _ _ _ hm tag rfl
  obtain ⟨place, hplace, -⟩ := Option.bind_eq_some_iff.mp hl
  have he₁ := (he.alike halike).later (hsteady.between _ _ _ _ hm).2.1
  have hreply := replies_success tag onSuccess onError (hbefore.trans hopen)
    (he₁.factory.trans hf) hplace
  rw [he₁.defaultDomain] at hreply
  exact .ready hr.standing hc hm hplace hreply (hafter.trans hreply.answer)

theorem refused_of_resolved (hs : m.coordinator.desk.Sound) {f : Fault} {defaultDomain : String}
    (htag : (m.coordinator.loadOf id).tag = tag)
    (hr : Resolved id (some f) (a.base m) (m.act a).1.coordinator is) :
    Answered m a id (.of r p tag onSuccess onError) onSuccess onError defaultDomain
      fallback := by
  obtain ⟨why, cause, rfl⟩ := hr.error f rfl
  rw [(halike.tag id).trans htag] at hr
  obtain ⟨c₁, raised, hm⟩ := hr.turn (hk.mem_base halike) rfl
  obtain ⟨hbefore, hafter⟩ := answer_of_turn hk halike hc hm fun _ hmine => hmine
  obtain ⟨hreply, hraised⟩ := replies_failure tag onSuccess onError (hbefore.trans hopen)
    (.load tag why cause)
  refine .refused hr.standing hc hm hreply (hafter.trans hreply.answer) fun hos hoe => ?_
  exact hc.leaves_of_fixed (halike.sound hs) hm (fun _ => rfl) (hraised hos hoe)

end Ends

theorem answered_of_ends (hk : WaitsAt m r p id (handleWaiter (.of r p tag onSuccess onError)))
    (ho : Orderly m.coordinator) (he : Equipped setup config m.coordinator)
    (hf : setup.factory = .handles fallback) (htag : (m.coordinator.loadOf id).tag = tag)
    (hopen : m.client.answer r p = Client.unanswered) (hcur : m.desk.store.isCurrent id)
    (hgone : ¬ (m.act a).1.desk.store.isCurrent id) :
    Answered m a id (.of r p tag onSuccess onError) onSuccess onError config.defaultDomain
      fallback := by
  rcases alike_base m a with ⟨x, key, args, domain, rfl⟩ | halike
  · -- rendering an entry settles nothing
    have hstore := (m.translate_keeps x key args domain).1
    rw [act, faultOf_fst, hstore] at hgone
    exact absurd hcur hgone
  have hsb := halike.sound ho.sound
  obtain ⟨is, hc⟩ := course_act (a := a) ho.sound hsb
  rcases hc.current hsb ((halike.isCurrent id).mpr hcur) with hd | ⟨outcome, hr⟩
  · exact absurd hd hgone
  · cases outcome with
    | none => exact ready_of_resolved hk halike hopen hc ho he hf hr
    | some f => exact refused_of_resolved hk halike hopen hc ho.sound htag hr

end Steps

section Equipped

variable {setup : Setup} {config : Config} {l : Localizer}

theorem equipped_create (h : create setup config = .ok l) :
    Equipped setup config l.coordinator := by
  refine (kept_create (fun {c} tag data hs he => ?_) (fun registry languages => ?_) h).2
  · obtain ⟨p, hp, hl, -⟩ := (move_define_silent hs.desk tag data).prepares hs
    exact (he.prepares hp).later hl
  · rw [coordinator_empty]
    exact ⟨rfl, rfl⟩

theorem equipped_run (hs : l.coordinator.Sound) (h : Equipped setup config l.coordinator)
    (as : List Action) : Equipped setup config (run l as).coordinator :=
  Driver.preserved_run (d := driver) (fun h hp => h.prepares hp) (fun h hl => h.later hl) hs h as

end Equipped

section Calls

variable {l : Localizer} {requested tag : String} {onSuccess onError : Option Callback}

abbrev asking (requested : String) (onSuccess onError : Option Callback) : Action :=
  .getHandle requested (onSuccess.map .function) (onError.map .function)

abbrev nextOf (l : Localizer) (tag : String) (onSuccess onError : Option Callback) :
    HandleRequest :=
  .of l.client.requests l.client.promises.length tag onSuccess onError

theorem unanswered_requesting (hs : l.coordinator.Sound) :
    (requesting l.coordinator).client.answer l.client.requests l.client.promises.length =
      Client.unanswered := by
  have hnew := hs.unseen (unissued_of_nextTicket (Or.inl rfl))
  refine Prod.ext ?_ (congrArg Prod.fst hnew)
  change (l.client.promises ++ [Promise.pending])[l.client.promises.length]? = some .pending
  simp

theorem unheld_of_turn (hs : l.coordinator.Sound) {n : List Notice} {t : Turn} {m : Localizer}
    (heq : m.coordinator = (take announce
      { requesting l.coordinator with desk := { l.coordinator.desk with notices := n } } t).1) :
    Unheld m l.client.requests l.client.promises.length := by
  intro k hk
  have hready := readies_requesting hs.desk n
  have hconf : Confines (· ≠ k)
      { requesting l.coordinator with desk := { l.coordinator.desk with notices := n } } := by
    rintro id w hw j hj rfl
    exact unissued_of_nextTicket hk (hs.issued id w hw j hj)
  obtain ⟨-, hl⟩ := take_keeps hready.sound t
  rw [← heq] at hl
  exact ⟨hl.client.issued.mpr (hready.issued k hk), hconf.later hl⟩

theorem refused_at_once (hs : l.coordinator.Sound) {f : Fault}
    (hr : l.resolve requested = .error f) :
    let call := l.act (asking requested onSuccess onError)
    (requesting l.coordinator).client.Replies l.client.requests l.client.promises.length (.broken f)
        (.failed f) onError call.1.client ∧
      (onSuccess.isSome → onError = none → call.2 = some f) ∧
      Unheld call.1 l.client.requests l.client.promises.length := by
  intro call
  have heq : seenStep call = _ := getHandle_error hr _ _
  obtain ⟨hreply, hraised⟩ := replies_failure (c := (requesting l.coordinator).note
    (.noLanguage requested)) requested onSuccess onError (unanswered_requesting hs) f
  have hcoord : call.1.coordinator = _ := congrArg Prod.fst heq
  have hclient : call.1.client = _ := congrArg Coordinator.client hcoord
  refine ⟨hclient ▸ hreply, ?_, unheld_of_turn hs hcoord⟩
  exact fun hos hoe => (congrArg Prod.snd heq).trans (hraised hos hoe)

theorem ready_at_once (hs : l.coordinator.Sound) {fallback : Fallback} {place : Nat}
    (hr : l.resolve requested = .ok tag) (hf : l.client.factory = .handles fallback)
    (hplace : l.desk.store.get? tag = some place) :
    let call := l.act (asking requested onSuccess onError)
    let x : Handle := ⟨place, tag, l.client.defaultDomain, fallback⟩
    (requesting l.coordinator).client.Replies l.client.requests l.client.promises.length
        (.kept (.handle x)) (.ready x) onSuccess call.1.client ∧
      Unheld call.1 l.client.requests l.client.promises.length := by
  intro call x
  have hsound := (readies_requesting hs.desk l.desk.notices).sound
  have heq : seenStep call = _ := getHandle_ok hr _ _
  rcases ensure_cases (c := requesting l.coordinator) hsound tag
    (handleWaiter (nextOf l tag onSuccess onError)) with ⟨-, htake⟩ | ⟨_, _, -, hq⟩
  · have hreply := replies_success (c := requesting l.coordinator) tag onSuccess onError
      (unanswered_requesting hs) hf hplace
    have hcoord : call.1.coordinator = _ := congrArg Prod.fst (heq.trans htake)
    have hclient : call.1.client = _ := congrArg Coordinator.client hcoord
    exact ⟨hclient ▸ hreply, unheld_of_turn hs hcoord⟩
  · have hcontains : l.desk.store.contains tag := Option.isSome_iff_exists.mpr ⟨place, hplace⟩
    exact absurd hcontains hq.absent

theorem queued_at_once (hs : l.coordinator.Sound) (hr : l.resolve requested = .ok tag)
    (hx : l.desk.store.get? tag = none) :
    let call := l.act (asking requested onSuccess onError)
    call.2 = none ∧ ∃ id, call.1.desk.store.pending.get? tag = some id ∧
      call.1.desk.store.isCurrent id ∧ (call.1.coordinator.loadOf id).tag = tag ∧
      call.1.client.answer l.client.requests l.client.promises.length = Client.unanswered ∧
      WaitsAt call.1 l.client.requests l.client.promises.length id
        (handleWaiter (nextOf l tag onSuccess onError)) := by
  intro call
  have hready := readies_requesting hs.desk l.desk.notices
  have heq : seenStep call = _ := getHandle_ok hr _ _
  rcases ensure_cases (c := requesting l.coordinator) hready.sound tag
    (handleWaiter (nextOf l tag onSuccess onError)) with ⟨ht, -⟩ | ⟨id, d, hens, hq⟩
  · obtain ⟨place, hplace⟩ := Option.isSome_iff_exists.mp ht
    exact absurd (hx.symm.trans hplace) nofun
  · have hstep : seenStep call = ({ requesting l.coordinator with desk := d }, none) :=
      heq.trans hens
    have hcoord : call.1.coordinator = { requesting l.coordinator with desk := d } :=
      congrArg Prod.fst hstep
    have hdesk : call.1.desk = d := congrArg Coordinator.desk hcoord
    have hclient : call.1.client = _ := congrArg Coordinator.client hcoord
    refine ⟨congrArg Prod.snd hstep, id, ?_, hdesk ▸ hq.current, ?_, ?_, fun k hk => ?_⟩
    · rw [hdesk]
      exact (hq.pending tag).trans (if_pos rfl)
    · rw [hcoord]
      exact hq.tag
    · exact hclient ▸ unanswered_requesting hs
    · rw [hcoord]
      refine tracks_of_queues hs (l.client.numbers_accept.trans
        l.client.accept.2.numbers_promise) hq trivial (fun j hj => hready.issued j ?_)
        (unissued_of_nextTicket hk) (hready.issued k hk)
      rcases hj with hj | ⟨_, ⟨rfl⟩, hj⟩
      · exact hj
      · exact hj

theorem findsOpen_asking (hs : l.coordinator.Sound) :
    FindsOpen l.client.requests l.client.promises.length l
      (asking requested onSuccess onError) := by
  intro is hc holder c₁ t raised hm
  have hopen : c₁.client = (requesting l.coordinator).client := by
    simp only [Action.base, Action.deed, Action.handleDeed] at hc
    cases hr : l.resolve requested with
    | error f =>
      simp only [hr] at hc
      generalize seenStep _ = s at hc
      cases hc with
      | turn h =>
        rw [(h.of_fixed fun _ => rfl).1] at hm
        rw [(Incident.turn.inj (List.mem_singleton.mp hm)).2.1]
        rfl
    | ok tag =>
      simp only [hr] at hc
      generalize seenStep _ = s at hc
      cases hc with
      | queued => exact absurd hm List.not_mem_nil
      | present _ h =>
        rw [(h.of_fixed fun _ => rfl).1] at hm
        rw [(Incident.turn.inj (List.mem_singleton.mp hm)).2.1]
  obtain ⟨hp, hlog⟩ := Prod.mk.inj (unanswered_requesting hs)
  rw [hopen]
  exact ⟨fun _ => hp, fun _ => hlog⟩

theorem getHandle_promise {os oe : Option (Given Callback)} {q : Nat}
    (h : (l.getHandle requested os oe).2 = .ok q) : q = l.client.promises.length := by
  simp only [getHandle] at h
  split at h
  · split at h
    · exact (Except.ok.inj h).symm
    · contradiction
  · generalize Coordinator.ensure _ _ _ = s at h
    rcases s with ⟨c, _ | x⟩
    · contradiction
    · exact (Except.ok.inj h).symm

theorem answer_of_unheld {m : Localizer} {r p : Nat} (hs : m.coordinator.Sound)
    (hk : Unheld m r p) (as : List Action) :
    (run m as).client.answer r p = m.client.answer r p ∧ ∀ a, FindsOpen r p (run m as) a := by
  have hrun := fun k hmine => Driver.unheld_run (d := driver) hs (hk k hmine).1 (hk k hmine).2 as
  refine ⟨answer_eq fun k hmine => (hrun k hmine).2.2, findsOpen_of_unheld ?_ fun k hmine => ?_⟩
  · exact Driver.sound_run (d := driver) hs as
  · exact ⟨(hrun k hmine).1, (hrun k hmine).2.1⟩

theorem WaitsAt.run {m : Localizer} {r p id : Nat} {w : Waiter Success Failure}
    (hk : WaitsAt m r p id w) (as : List Action) : WaitsAt (m.run as) r p id w :=
  fun k hmine => Driver.tracks_run (d := driver) (hk k hmine) as

theorem answer_of_waits {m : Localizer} {r p id : Nat} {w : Waiter Success Failure}
    (hk : WaitsAt m r p id w)
    (hopen : m.client.answer r p = Client.unanswered) (as : List Action) :
    ((run m as).desk.store.isCurrent id → (run m as).client.answer r p = Client.unanswered) ∧
      ∀ a, FindsOpen r p (run m as) a := by
  have hstill : (run m as).desk.store.isCurrent id →
      (run m as).client.answer r p = Client.unanswered := fun hc =>
    (answer_eq fun k hmine => (Driver.still_run (d := driver) (hk k hmine) as hc).2).trans hopen
  exact ⟨hstill, findsOpen_of_waits (hk.run as) hstill⟩

theorem findsOpen_run {setup : Setup} {config : Config} {fallback : Fallback}
    (hs : l.coordinator.Sound) (he : Equipped setup config l.coordinator)
    (hf : setup.factory = .handles fallback) (requested : String)
    (onSuccess onError : Option Callback) (as : List Action) (a : Action) :
    FindsOpen l.client.requests l.client.promises.length
      (run (l.act (asking requested onSuccess onError)).1 as) a := by
  have hs₁ : (l.act (asking requested onSuccess onError)).1.coordinator.Sound :=
    Driver.sound_step (d := driver) hs _
  cases hr : l.resolve requested with
  | error f =>
    obtain ⟨-, -, hk⟩ := refused_at_once hs hr
    exact (answer_of_unheld hs₁ hk as).2 a
  | ok tag =>
    cases hx : l.desk.store.get? tag with
    | some place =>
      obtain ⟨-, hk⟩ := ready_at_once hs hr (he.factory.trans hf) hx
      exact (answer_of_unheld hs₁ hk as).2 a
    | none =>
      obtain ⟨-, id, -, -, -, hopen, hk⟩ := queued_at_once hs hr hx
      exact (answer_of_waits hk hopen as).2 a

theorem answered_run {setup : Setup} {config : Config} {fallback : Fallback} {m : Localizer}
    {r p id : Nat} (ho : Orderly m.coordinator) (he : Equipped setup config m.coordinator)
    (hf : setup.factory = .handles fallback)
    (hk : WaitsAt m r p id (handleWaiter (.of r p tag onSuccess onError)))
    (hcur : m.desk.store.isCurrent id) (htag : (m.coordinator.loadOf id).tag = tag)
    (hopen : m.client.answer r p = Client.unanswered) (as : List Action)
    (hgone : ¬ (run m as).desk.store.isCurrent id) :
    ∃ pre a post, as = pre ++ a :: post ∧
      (run m pre).desk.store.isCurrent id ∧
      ¬ ((run m pre).act a).1.desk.store.isCurrent id ∧
      (run m pre).client.answer r p = Client.unanswered ∧
      Answered (run m pre) a id (.of r p tag onSuccess onError) onSuccess onError
        config.defaultDomain fallback ∧
      (run m as).client.answer r p = ((run m pre).act a).1.client.answer r p := by
  have hpromise := hk _ (Or.inr rfl)
  rcases Driver.tracked_run (d := driver) hpromise hcur as with
    ⟨hcur', -⟩ | ⟨pre, a, post, q, rfl, hset⟩
  · exact absurd hcur' hgone
  · have hpre := hk.run pre
    have hbefore := (answer_of_waits hk hopen pre).1 hset.current
    have he' := equipped_run hpromise.sound he pre
    refine ⟨pre, a, post, rfl, hset.current, hset.gone, hbefore, ?_, ?_⟩
    · exact answered_of_ends hpre (orderly_run ho pre) he' hf (hset.tag.trans htag) hbefore
        hset.current hset.gone
    · have hrun : run m (pre ++ a :: post) = run ((run m pre).act a).1 post := List.foldl_append
      rw [hrun]
      refine answer_eq fun k hmine => ?_
      have hafter := (Driver.tracks_step (d := driver) (hpre k hmine) a).1
      exact (Driver.gone_run (d := driver) hafter hset.gone post).2.1

end Calls

/-- In any run of a localizer whose handles are made as usual, a request for a handle is answered
once. The call refuses it if there is no tag for it, and answers it if the lexicon of the tag is
there; otherwise it waits for the current load of the tag, and the step that settles the load
answers it, with a handle for the lexicon that is then installed or with the fault of the load. Its
promise is settled first, then the callback that applies is called with the same handle or fault; a
fault that there is no callback for leaves the step. -/
theorem handles_delivered {setup : Setup} {config : Config} {l₀ : Localizer}
    {fallback : Fallback} (h : create setup config = .ok l₀)
    (hf : setup.factory = .handles fallback) (before after : List Action) (requested : String)
    (onSuccess onError : Option Callback) :
    let l := run l₀ before
    let r := l.client.requests
    let p := l.client.promises.length
    let start := (requesting l.coordinator).client
    let call := l.act (asking requested onSuccess onError)
    let l₂ := run call.1 after
    (∀ q, (l.getHandle requested (onSuccess.map .function) (onError.map .function)).2 = .ok q →
      q = p) ∧
    (∀ pre a post, asking requested onSuccess onError :: after = pre ++ a :: post →
      FindsOpen r p (run l pre) a) ∧
    ((∀ tag, l.resolve requested ≠ .ok tag) →
      start.Replies r p (.broken (.noLanguage requested)) (.failed (.noLanguage requested)) onError
        call.1.client ∧
      (onSuccess.isSome → onError = none → call.2 = some (.noLanguage requested)) ∧
      l₂.client.answer r p = Client.refused r onError (.noLanguage requested)) ∧
    ∀ tag, l.resolve requested = .ok tag →
      (∀ place, l.desk.store.get? tag = some place →
        let x : Handle := ⟨place, tag, config.defaultDomain, fallback⟩
        start.Replies r p (.kept (.handle x)) (.ready x) onSuccess call.1.client ∧
        l₂.client.answer r p = Client.ready r onSuccess x) ∧
      (l.desk.store.get? tag = none → call.2 = none ∧ ∃ id,
        call.1.desk.store.pending.get? tag = some id ∧
        (l₂.desk.store.isCurrent id → l₂.client.answer r p = Client.unanswered) ∧
        (¬ l₂.desk.store.isCurrent id → ∃ pre a post, after = pre ++ a :: post ∧
          (run call.1 pre).desk.store.isCurrent id ∧
          ¬ ((run call.1 pre).act a).1.desk.store.isCurrent id ∧
          (run call.1 pre).client.answer r p = Client.unanswered ∧
          Answered (run call.1 pre) a id (nextOf l tag onSuccess onError) onSuccess onError
            config.defaultDomain fallback ∧
          l₂.client.answer r p = ((run call.1 pre).act a).1.client.answer r p)) := by
  intro l r p start call l₂
  have hs₀ : l₀.coordinator.Sound := sound_create h
  have hs : l.coordinator.Sound := Driver.sound_run (d := driver) hs₀ before
  have hs₁ : call.1.coordinator.Sound := Driver.sound_step (d := driver) hs _
  have he : Equipped setup config l.coordinator := equipped_run hs₀ (equipped_create h) before
  have he₁ : Equipped setup config call.1.coordinator :=
    equipped_run hs he [asking requested onSuccess onError]
  have ho₁ : Orderly call.1.coordinator := orderly_act (orderly_run (orderly_create h) before) _
  refine ⟨fun q hq => getHandle_promise hq, fun pre a post heq => ?_, fun hnone => ?_,
    fun tag hr => ⟨fun place hplace => ?_, fun hx => ?_⟩⟩
  · cases pre with
    | nil => exact (List.cons.inj heq).1 ▸ findsOpen_asking hs
    | cons b pre =>
      exact (List.cons.inj heq).1 ▸ findsOpen_run hs he hf requested onSuccess onError pre a
  · have hr : l.resolve requested = .error (.noLanguage requested) := by
      unfold resolve at hnone ⊢
      split at hnone
      · exact absurd rfl (hnone _)
      · simp only [*]
    obtain ⟨hreply, hraised, hk⟩ := refused_at_once hs hr
    exact ⟨hreply, hraised, (answer_of_unheld hs₁ hk after).1.trans hreply.answer⟩
  · obtain ⟨hreply, hk⟩ := ready_at_once hs hr (he.factory.trans hf) hplace
    rw [show l.client.defaultDomain = config.defaultDomain from he.defaultDomain] at hreply
    exact ⟨hreply, (answer_of_unheld hs₁ hk after).1.trans hreply.answer⟩
  · obtain ⟨hquiet, id, hpend, hcur, htag, hopen, hk⟩ := queued_at_once hs hr hx
    exact ⟨hquiet, id, hpend, (answer_of_waits hk hopen after).1,
      answered_run ho₁ he₁ hf hk hcur htag hopen after⟩

/-- The lexicon arrives that a handle was asked for. -/
theorem handles_delivered_loaded :
    let answer : Delivery := .resource ⟨.map [], none⟩
    let s : Setup :=
      ⟨.list [.text "en"], .none, [], .handles .marker, some fun _ _ => answer, .catalogue⟩
    let config : Config := ⟨⟨.whole 5, rfl⟩, "", [], "*"⟩
    let l := empty s config (Registry.builtins .catalogue) [.text "en"]
    let call := l.act (asking "en" none none)
    create s config = .ok l ∧ s.factory = .handles .marker ∧
      ∃ id pre a post, [.deliver 0 answer] = pre ++ a :: post ∧
        Answered (run call.1 pre) a id (nextOf l "en" none none) none none "*" .marker := by
  intro answer s config l call
  have h : create s config = .ok l := rfl
  have htag : Language.resolve "en" l.client.tags l.config.fallbackLanguages = some "en" := by
    decide +kernel
  have hr : l.resolve "en" = .ok "en" := by
    simp only [resolve, htag]
  have hpending : call.1.desk.store.pending.get? "en" = some 0 := by decide +kernel
  have hgone : ¬ (run call.1 [.deliver 0 answer]).desk.store.isCurrent 0 := by decide +kernel
  have hrun := (handles_delivered h rfl [] [.deliver 0 answer] "en" none none).2.2.2 "en" hr
  obtain ⟨-, id, hid, -, hsettled⟩ := hrun.2 rfl
  obtain rfl := Option.some.inj (hpending.symm.trans hid)
  obtain ⟨pre, a, post, hsplit, -, -, -, hanswered, -⟩ := hsettled hgone
  exact ⟨h, rfl, 0, pre, a, post, hsplit, hanswered⟩

end Localizer

end Phrasebook
