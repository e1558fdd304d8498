import Phrasebook.Loading.Coordinator

/-!
# Tickets

A client waits with a ticket: the number of its request, or that of its promise. What was done for
a ticket are the events of the request, or the state of the promise. Telling someone who does not
hold a ticket does nothing for it.
-/

namespace Phrasebook

inductive Ticket where
  | request (id : Nat)
  | promise (id : Nat)
  deriving DecidableEq, Repr

def Listener.Holds : Listener → Ticket → Prop
  | .caller request _, k => k = .request request
  | .handle r, k => k = .request r.request ∨ k = .promise r.promise

def Reporter.Holds : Reporter → Ticket → Prop
  | .caller request _, k => k = .request request
  | .promise id _, k => k = .promise id

def Success.Holds : Success → Ticket → Prop
  | .listener l, k => l.Holds k
  | .extendLoad .., _ => False
  | .extendDefinition _ _ _ r, k => ∃ x ∈ r, x.Holds k

def Failure.Holds : Failure → Ticket → Prop
  | .listener l, k => l.Holds k
  | .abandonLoad .., _ => False
  | .abandonDefinition _ _ r, k => ∃ x ∈ r, x.Holds k

def Waiter.Holds (w : Waiter Success Failure) (k : Ticket) : Prop :=
  w.onSuccess.Holds k ∨ ∃ e ∈ w.onError, e.Holds k

namespace Client

def log (c : Client) (request : Nat) : List Event := c.events.filter (·.request = request)

def seen (c : Client) : Ticket → List Event × Option Promise
  | .request id => (c.log id, none)
  | .promise id => ([], c.promises[id]?)

/-- Events are never taken back, promises never unsettled, and languages never withdrawn. -/
structure Later (c c' : Client) : Prop where
  requests : c'.requests = c.requests
  factory : c'.factory = c.factory
  defaultDomain : c'.defaultDomain = c.defaultDomain
  events : c.events <+: c'.events
  promises : c'.promises.length = c.promises.length
  settled : ∀ {id : Nat} {p : Promise}, c.promises[id]? = some p → p ≠ .pending →
    c'.promises[id]? = some p
  languages : c.languages <+: c'.languages

theorem Later.refl (c : Client) : Later c c :=
  ⟨rfl, rfl, rfl, List.prefix_rfl, rfl, fun h _ => h, List.prefix_rfl⟩

theorem Later.trans {c d e : Client} (h : Later c d) (k : Later d e) : Later c e where
  requests := k.requests.trans h.requests
  factory := k.factory.trans h.factory
  defaultDomain := k.defaultDomain.trans h.defaultDomain
  events := h.events.trans k.events
  promises := k.promises.trans h.promises
  settled hp hn := k.settled (h.settled hp hn) hn
  languages := h.languages.trans k.languages

theorem Later.offers {c c' : Client} (h : Later c c') {tag : String} (ho : c.offers tag) :
    c'.offers tag := by
  obtain ⟨v, hv, hs⟩ := List.any_eq_true.mp ho
  exact List.any_eq_true.mpr ⟨v, h.languages.subset hv, hs⟩

/-- Something is done for the tickets in `H` at most. -/
structure Serves (H : Ticket → Prop) (c c' : Client) : Prop where
  later : Later c c'
  seen : ∀ {k}, ¬ H k → c'.seen k = c.seen k

variable {H : Ticket → Prop}

theorem Serves.refl (c : Client) : Serves H c c := ⟨.refl c, fun _ => rfl⟩

theorem Serves.trans {c d e : Client} (h : Serves H c d) (k : Serves H d e) : Serves H c e :=
  ⟨h.later.trans k.later, fun hn => (k.seen hn).trans (h.seen hn)⟩

theorem Serves.mono {I : Ticket → Prop} {c d : Client} (h : Serves H c d)
    (hi : ∀ k, H k → I k) : Serves I c d :=
  ⟨h.later, fun hn => h.seen fun hk => hn (hi _ hk)⟩

section Operations

variable (c : Client)

theorem serves_settle (id : Nat) (p : Promise) :
    Serves (· = .promise id) c (c.settle id p).1 := by
  unfold settle
  split
  · rename_i h
    refine ⟨⟨rfl, rfl, rfl, List.prefix_rfl, by simp, ?_, List.prefix_rfl⟩, ?_⟩
    · intro j q hj hq
      have he : id ≠ j := by
        rintro rfl
        exact hq (Option.some.inj (hj.symm.trans h))
      simpa [he] using hj
    · intro k hk
      cases k with
      | request r => rfl
      | promise j =>
        have hj : id ≠ j := fun e => hk (e ▸ rfl)
        simp [Client.seen, hj]
  · exact .refl c

theorem settle_pending {id : Nat} (h : c.promises[id]? = some .pending) (p : Promise) :
    (c.settle id p).2 = none ∧ (c.settle id p).1.promises[id]? = some p := by
  have hl := (List.getElem?_eq_some_iff.mp h).1
  unfold settle
  rw [h]
  exact ⟨rfl, List.getElem?_set_self hl⟩

theorem serves_offer (tag : String) : Serves (fun _ => False) c (c.offer tag) := by
  unfold offer
  split
  · exact .refl c
  · refine ⟨⟨rfl, rfl, rfl, List.prefix_rfl, rfl, fun h _ => h, List.prefix_append _ _⟩, ?_⟩
    intro k _
    cases k <;> rfl

theorem offers_offer (tag : String) : (c.offer tag).offers tag := by
  unfold offer
  split
  · assumption
  · simp [offers, Value.same]

theorem serves_call (request : Nat) (g : Given Callback) (m : Message) :
    Serves (· = .request request) c (c.call request g m).1 := by
  cases g with
  | function f =>
    refine ⟨⟨rfl, rfl, rfl, List.prefix_append _ _, rfl, fun h _ => h, List.prefix_rfl⟩, ?_⟩
    intro k hk
    cases k with
    | request r =>
      have hr : request ≠ r := fun e => hk (e ▸ rfl)
      simp [call, Client.seen, log, hr]
    | promise j => rfl
  | value kind => exact .refl c

theorem serves_deliver (r : HandleRequest) (h : Handle) :
    Serves (Listener.handle r).Holds c (c.deliver r h).1 := by
  have hs := (serves_settle c r.promise (.kept (.handle h))).mono
    (I := (Listener.handle r).Holds) fun _ => Or.inr
  unfold deliver
  split
  · rename_i he; rw [he] at hs; exact hs
  · rename_i he
    rw [he] at hs
    split
    · exact hs.trans ((serves_call _ _ _ _).mono fun _ => Or.inl)
    · exact hs

theorem serves_refuse (r : HandleRequest) (f : Fault) :
    Serves (Listener.handle r).Holds c (c.refuse r f).1 := by
  have hs := (serves_settle c r.promise (.broken f)).mono
    (I := (Listener.handle r).Holds) fun _ => Or.inr
  unfold refuse
  split
  · rename_i he; rw [he] at hs; exact hs
  · rename_i he
    rw [he] at hs
    split
    · exact hs.trans ((serves_call _ _ _ _).mono fun _ => Or.inl)
    · exact hs
    · exact hs

theorem serves_hearSuccess (installed : String → Option Nat) (l : Listener) :
    Serves l.Holds c (c.hearSuccess installed l).1 := by
  cases l with
  | caller request g => exact serves_call c request g _
  | handle r =>
    simp only [hearSuccess]
    split
    · exact .refl c
    · split
      · exact serves_deliver c r _
      · exact .refl c

theorem serves_hearFailure (f : Fault) (l : Listener) :
    Serves l.Holds c (c.hearFailure f l).1 := by
  cases l with
  | caller request g => exact serves_call c request g _
  | handle r => exact serves_refuse c r f

theorem serves_reportInstalled (place : Nat) (r : Reporter) :
    Serves r.Holds c (c.reportInstalled place r).1 := by
  cases r with
  | caller request g => exact serves_call c request g _
  | promise id tag =>
    exact ((serves_offer c tag).mono fun _ h => h.elim).trans (serves_settle _ id _)

theorem serves_reportFailed (f : Fault) (r : Reporter) :
    Serves r.Holds c (c.reportFailed f r).1 := by
  cases r with
  | caller request g => exact serves_call c request g _
  | promise id tag => exact serves_settle c id _

end Operations

end Client

end Phrasebook
