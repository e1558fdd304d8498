import Phrasebook.Loading.Client
import Phrasebook.Loading.Desk

/-!
Coordinating loads. A request for a lexicon is answered at once if the lexicon is there; otherwise
it waits for the load of its tag, and there is never more than one such load. A load is settled
once: by a lexicon, by a failure or by its timer. Then its waiters are told in the order in which
they came; one that raises does not keep the others from being told, and what was raised leaves
the step together.

A load whose resource extends a base waits for that base like any other waiter, so that settling
one load can settle others. Each of them leaves the pending table before its waiters are told,
which bounds the nesting by the number of pending loads.
-/

namespace Phrasebook

/-- What a waiter does when its lexicon is there. -/
inductive Success where
  | listener (l : Listener)
  /-- The resource of a load is put over its base. -/
  | extendLoad (load : Nat) (base : String) (data : Value)
  /-- The data of a definition are put over their base. -/
  | extendDefinition (tag base : String) (data : LexiconData) (installed : Option Reporter)

/-- What a waiter does when its lexicon could not be loaded. -/
inductive Failure where
  | listener (l : Listener)
  | abandonLoad (load : Nat) (base : String)
  | abandonDefinition (tag base : String) (failed : Option Reporter)

inductive Delivery where
  | resource (r : Resource)
  | fault (f : Fault)
  /-- Something else, which no lexicon can be made of. -/
  | other

structure Coordinator where
  desk : Desk Success Failure
  client : Client

namespace Coordinator

/-- What is left of a step: the new state, and the fault that leaves the step. -/
abbrev Step := Coordinator × Option Fault

def note (c : Coordinator) (n : Notice) : Coordinator := { c with desk := c.desk.note n }

def loadOf (c : Coordinator) (id : Nat) : Load Success Failure :=
  (c.desk.store.loads[id]?).getD (.new "")

/-- The fault that leaves a step in which several were raised; one that no waiter could be told of
stands first. -/
def gather (unhandled : Option Fault) (raised : List Fault) : Option Fault :=
  match unhandled, raised with
  | none, [] => none
  | some f, [] => some f
  | some f, raised => some (.group (f :: raised))
  | none, raised => some (.group raised)

def forEach {τ : Type} (act : Coordinator → τ → Step) (c : Coordinator) :
    List τ → Coordinator × List Fault
  | [] => (c, [])
  | t :: ts =>
    let (c, raised) := act c t
    let (c, more) := forEach act c ts
    (c, raised.toList ++ more)

abbrev Announce := Coordinator → Nat → Option Fault → Step

def report (c : Coordinator) (place : Nat) : Option Reporter → Step
  | none => (c, none)
  | some r =>
    let (client, raised) := c.client.reportInstalled place r
    ({ c with client }, raised)

/-- Installs a lexicon that was defined. What waiters raise keeps it from being reported. -/
def install (announce : Announce) (c : Coordinator) (l : Lexicon) (r : Option Reporter) : Step :=
  match c.desk.install l with
  | (place, none, desk) => report { c with desk } place r
  | (place, some id, desk) =>
    match announce { c with desk } id none with
    | (c, some f) => (c, some f)
    | (c, none) => report c place r

def installLoaded (announce : Announce) (c : Coordinator) (id : Nat) (l : Lexicon) : Step :=
  match c.desk.installLoaded id (c.loadOf id).tag l with
  | (true, desk) => announce { c with desk } id none
  | (false, desk) => ({ c with desk }, none)

def failLoad (announce : Announce) (c : Coordinator) (id : Nat) (why : LoadFailure)
    (cause : Fault) : Step :=
  let tag := (c.loadOf id).tag
  match c.desk.giveUp id tag cause with
  | (true, desk) => announce { c with desk } id (some (.load tag why (some cause)))
  | (false, desk) => ({ c with desk }, none)

def finish (announce : Announce) (c : Coordinator) (id : Nat) (data : Value)
    (make : LexiconData → Lexicon) : Step :=
  match LexiconData.ofValue data with
  | .ok data => installLoaded announce c id (make data)
  | .error f =>
    if f.isShape then failLoad announce c id (.failed f.message) (.data f)
    else (c, some (.data f))

def succeed (announce : Announce) (c : Coordinator) : Success → Step
  | .listener l =>
    let (client, raised) := c.client.hearSuccess c.desk.store.get? l
    ({ c with client }, raised)
  | .extendLoad id base data =>
    let tag := (c.loadOf id).tag
    match c.desk.lexicon? base with
    | none => (c, some (.load tag (.baseMissing base) none))
    | some l => finish announce c id data (l.derive tag)
  | .extendDefinition tag base data r =>
    match c.desk.lexicon? base with
    | none => (c, some (.load tag (.baseMissing base) none))
    | some l => install announce c (l.derive tag data) r

def fail (announce : Announce) (f : Fault) (c : Coordinator) : Failure → Step
  | .listener l =>
    let (client, raised) := c.client.hearFailure f l
    ({ c with client }, raised)
  | .abandonLoad id base =>
    failLoad announce (c.note (.baseFailed (c.loadOf id).tag base f.message)) id
      (.baseFailed base) f
  | .abandonDefinition tag base r =>
    let c := c.note (.notDefined tag base f.message)
    match r with
    | none => (c, none)
    | some r =>
      let (client, raised) := c.client.reportFailed (.load tag (.baseFailed base) (some f)) r
      ({ c with client }, raised)

def announceWithin : Nat → Announce
  | 0, c, _, _ => (c, none)
  | depth + 1, c, id, none =>
    let (c, raised) := forEach (succeed (announceWithin depth)) c (c.loadOf id).onSuccess
    (c, gather none raised)
  | depth + 1, c, id, some f =>
    let load := c.loadOf id
    let c := if load.isUnobserved then c.note (.unobserved load.tag f.message) else c
    let (c, raised) := forEach (fail (announceWithin depth) f) c load.onError
    (c, gather (if load.isUnobserved then some f else none) raised)

/-- Each nested announcement is about a load that was pending before. -/
def announce : Announce := fun c => announceWithin (c.desk.store.pending.size + 1) c

def ensure (c : Coordinator) (tag : String) (w : Waiter Success Failure) :
    Coordinator × Except Fault Registered :=
  match c.desk.store.register tag w with
  | (.loaded, _) =>
    match succeed announce c w.onSuccess with
    | (c, none) => (c, .ok .loaded)
    | (c, some f) => (c, .error f)
  | (.joined id, s) => ({ c with desk := c.desk.withStore s }, .ok (.joined id))
  | (.created id, s) =>
    ({ c with desk := (c.desk.withStore s).start id }, .ok (.created id))

def faultOf {α : Type} (s : Coordinator × Except Fault α) : Step :=
  match s with
  | (c, .ok _) => (c, none)
  | (c, .error f) => (c, some f)

def define (c : Coordinator) (tag : String) (data : Value) (base : Option String)
    (installed failed : Option Reporter) : Step :=
  match LexiconData.ofValue data, base with
  | .error f, _ => (c, some (.data f))
  | .ok data, none => install announce c (.ofData tag data) installed
  | .ok data, some base =>
    if base = tag then (c, some (.ownBase tag))
    else faultOf (c.ensure base
      ⟨.extendDefinition tag base data installed, some (.abandonDefinition tag base failed)⟩)

def deliver (c : Coordinator) (id : Nat) (d : Delivery) : Step :=
  let tag := (c.loadOf id).tag
  let c := { c with desk := c.desk.answer id tag }
  match d with
  | .fault f =>
    match f.text with
    | .ok reason => failLoad announce c id (.failed reason) f
    | .error g => (c, some g)
  | .other => (c, some .noAttribute)
  | .resource ⟨data, none⟩ => finish announce c id data (.ofData tag)
  | .resource ⟨data, some base⟩ =>
    if base = tag then failLoad announce c id .ownBase (.ownBaseResource tag)
    else faultOf (c.ensure base ⟨.extendLoad id base data, some (.abandonLoad id base)⟩)

/-- What is done when the timer of a load fires; it says nothing about the load if that was settled
before. -/
def expire (c : Coordinator) (id : Nat) : Step :=
  let tag := (c.loadOf id).tag
  let desk := c.desk.fire id
  match desk.store.detach id with
  | (false, _) => ({ c with desk }, none)
  | (true, s) =>
    let c := { c with desk := desk.withStore s }
    let limit := desk.service.timeout.duration
    match limit.general? 3, limit.general? 6 with
    | some short, some seconds =>
      announce (c.note (.timedOut tag short)) id (some (.load tag (.timedOut seconds) none))
    | _, _ => (c, some .tooLarge)

/-- The timer of a load comes to its end, unless it is set to more than the system can wait for. -/
def elapse (c : Coordinator) (id : Nat) : Step :=
  if c.desk.service.timeout.duration.elapses then c.expire id else (c, none)

end Coordinator

end Phrasebook
