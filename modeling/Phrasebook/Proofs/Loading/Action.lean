import Phrasebook.Localizer
import Phrasebook.Proofs.Loading.Run

/-!
# Actions of a coordinator

All that callers, loaders and timers can do to a coordinator, in any order. A loader answers for a
load once. The timer of a load may fire at any time, unless it is set to more than the system can
wait for. Callbacks are called after they were checked, and may raise.
-/

namespace Phrasebook

namespace Coordinator

inductive Action where
  | ensure (tag : String) (onSuccess : Given Callback) (onError : Option (Given Callback))
  | define (tag : String) (data : Value) (base : Option String)
      (onInstalled onFailed : Option (Given Callback))
  | install (l : Lexicon)
  | deliver (load : Nat) (result : Except Fault Resource)
  | expire (load : Nat)

namespace Action

def occasion : Action → Occasion
  | deliver id _ => .answer id
  | expire id => .timer id
  | _ => .call

theorem eq_deliver {a : Action} {id : Nat} (h : a.occasion = .answer id) :
    ∃ result, a = deliver id result := by
  cases a with
  | deliver j result => exact ⟨result, by rw [Occasion.answer.inj h]⟩
  | _ => contradiction

end Action

def delivery : Except Fault Resource → Delivery
  | .ok r => .resource r
  | .error f => .fault f

theorem delivery_eq_resource {result : Except Fault Resource} {r : Resource} :
    delivery result = .resource r ↔ result = .ok r := by
  cases result <;> simp [delivery]

theorem delivery_eq_fault {result : Except Fault Resource} {f : Fault} :
    delivery result = .fault f ↔ result = .error f := by
  cases result <;> simp [delivery]

theorem delivery_ne_other {result : Except Fault Resource} : delivery result ≠ .other := by
  cases result <;> nofun

def callerWaiter (request : Nat) (onSuccess : Given Callback) (onError : Option (Given Callback)) :
    Waiter Success Failure :=
  ⟨.listener (.caller request onSuccess), onError.map fun g => .listener (.caller request g)⟩

def numbered (c : Coordinator) : Coordinator := { c with client := c.client.accept.2 }

def act (c : Coordinator) : Action → Step
  | .ensure tag onSuccess onError =>
    match Localizer.checkCallbacks onSuccess onError with
    | some f => (c, some f)
    | none => faultOf (c.numbered.ensure tag (callerWaiter c.client.requests onSuccess onError))
  | .define tag data base onInstalled onFailed =>
    c.numbered.define tag data base (onInstalled.map (.caller c.client.requests))
      (onFailed.map (.caller c.client.requests))
  | .install l => Coordinator.install announce c l none
  | .deliver id result =>
    if (c.loadOf id).fetch = .outstanding then c.deliver id (delivery result) else (c, none)
  | .expire id => c.elapse id

def run (c : Coordinator) (as : List Action) : Coordinator := as.foldl (fun c a => (c.act a).1) c

def start (service : Service) (client : Client) : Coordinator where
  desk := .empty service
  client := { client with promises := [], events := [], requests := 0 }

theorem sound_start (service : Service) (client : Client) : (start service client).Sound := by
  have hwaiters : ∀ id, ((start service client).loadOf id).waiters = [] := fun id => rfl
  refine ⟨⟨⟨nofun, nofun, nofun⟩, nofun, ?_⟩, ?_, ?_⟩
  · intro id w hw
    exact absurd hw (hwaiters id ▸ List.not_mem_nil)
  · intro id w hw
    exact absurd hw (hwaiters id ▸ List.not_mem_nil)
  · intro k _
    cases k <;> rfl

def NextRequest (c : Coordinator) (k : Ticket) : Prop := k = .request c.client.requests

section Moves

variable {c : Coordinator}

theorem readies_numbered (hs : c.desk.Sound) : Readies c.NextRequest .call c c.numbered :=
  readies_of_store hs rfl rfl rfl c.client.numbers_accept fun _ hk =>
    hk ▸ Nat.lt_succ_self c.client.requests

theorem holds_callerWaiter {request : Nat} {g : Given Callback} {onError : Option (Given Callback)}
    {k : Ticket} (h : (callerWaiter request g onError).Holds k) : k = .request request := by
  rcases h with h | ⟨e, he, h⟩
  · exact h
  · obtain ⟨g', -, rfl⟩ := Option.map_eq_some_iff.mp he
    exact h

theorem holds_caller {request : Nat} {g : Option (Given Callback)} :
    ∀ r ∈ g.map (Reporter.caller request), ∀ k, r.Holds k → k = .request request := by
  intro r hr k hk
  obtain ⟨g', -, rfl⟩ := Option.map_eq_some_iff.mp hr
  exact hk

theorem move_delivery (hs : c.desk.Sound) (id : Nat) (d : Delivery) :
    ∃ N, Move N (.answer id) c
        (if (c.loadOf id).fetch = .outstanding then c.deliver id d else (c, none)) ∧
      ∀ k, N k → ¬ k.Issued c.client := by
  split
  · rename_i hout
    exact ⟨_, move_deliver hs hout d, nofun⟩
  · rename_i hout
    exact ⟨_, .idle (prepares_self hs fun ho => Occasion.answer.inj ho ▸ hout), nofun⟩

theorem move_act (hs : c.desk.Sound) (a : Action) :
    ∃ N, Move N a.occasion c (c.act a) ∧ ∀ k, N k → ¬ k.Issued c.client := by
  have hfresh : ∀ k, c.NextRequest k → ¬ k.Issued c.client := by
    rintro k rfl
    exact Nat.lt_irrefl _
  cases a with
  | ensure tag onSuccess onError =>
    simp only [act, Action.occasion]
    split
    · exact ⟨_, .idle (prepares_self hs nofun), nofun⟩
    · refine ⟨c.NextRequest, move_ensure (readies_numbered hs) trivial ?_, hfresh⟩
      exact fun k hk => holds_callerWaiter hk
  | define tag data base onInstalled onFailed =>
    exact ⟨c.NextRequest, move_define (readies_numbered hs) tag data base holds_caller
      holds_caller, hfresh⟩
  | install l =>
    exact ⟨_, Move.turn (t := .install l none) (prepares_self hs nofun) nofun, nofun⟩
  | deliver id result => exact move_delivery hs id (delivery result)
  | expire id => exact ⟨_, move_elapse hs id, nofun⟩

end Moves

def driver : Driver Coordinator Action where
  view := id
  act := act
  occasion := Action.occasion
  moves _ a hs := move_act hs.desk a

end Coordinator

end Phrasebook
