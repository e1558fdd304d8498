import Phrasebook.Fault
import Phrasebook.Registry

/-!
Clients of a service: the promises that were made to callers, the callbacks that were called, and
the languages that are offered. What a client does when a lexicon arrives or fails touches nothing
but its own state, and at most raises a fault.
-/

namespace Phrasebook

/-- A callback of a caller. It is known by its name, and after it was called it may raise a fault
from which a program recovers, with a text or without one. -/
structure Callback where
  name : String
  raises : Option Fault

inductive Product where
  | lexicon (id : Nat)
  | handle (h : Handle)

inductive Promise where
  | pending
  | kept (p : Product)
  | broken (f : Fault)

inductive Message where
  | present
  | ready (h : Handle)
  | failed (f : Fault)
  | installed (lexicon : Nat)
  | notDefined (f : Fault)

structure Event where
  /-- The number of the request that gave the callback. -/
  request : Nat
  name : String
  message : Message

inductive Factory where
  | handles (fallback : Fallback)
  /-- It always fails. -/
  | broken

structure Client where
  /-- The tags that can be asked for, each once. -/
  languages : List Value
  promises : List Promise
  events : List Event
  /-- The number of requests so far. -/
  requests : Nat
  factory : Factory
  defaultDomain : String

/-- Someone who asked for a handle; the tag is the one that the request was resolved to. -/
structure HandleRequest where
  request : Nat
  promise : Nat
  tag : String
  onSuccess : Option (Given Callback)
  onError : Option (Given Callback)

/-- Who wants to know whether a lexicon is present. -/
inductive Listener where
  | caller (request : Nat) (callback : Given Callback)
  | handle (r : HandleRequest)

/-- Who wants to know whether a definition was installed. -/
inductive Reporter where
  | caller (request : Nat) (callback : Given Callback)
  | promise (id : Nat) (tag : String)

namespace Client

def offers (c : Client) (tag : String) : Bool := c.languages.any (Value.same · (.text tag))

def offer (c : Client) (tag : String) : Client :=
  if c.offers tag then c else { c with languages := c.languages ++ [.text tag] }

def tags (c : Client) : List String :=
  c.languages.filterMap fun
    | .text s => some s
    | _ => none

def accept (c : Client) : Nat × Client := (c.requests, { c with requests := c.requests + 1 })

def promise (c : Client) : Nat × Client :=
  (c.promises.length, { c with promises := c.promises ++ [.pending] })

def settle (c : Client) (id : Nat) (p : Promise) : Client × Option Fault :=
  match c.promises[id]? with
  | some .pending => ({ c with promises := c.promises.set id p }, none)
  | _ => (c, some .settledTwice)

def call (c : Client) (request : Nat) (g : Given Callback) (m : Message) :
    Client × Option Fault :=
  match g with
  | .function f => ({ c with events := c.events ++ [⟨request, f.name, m⟩] }, f.raises)
  | .value _ => (c, some .wrongKind)

def makeHandle (c : Client) (lexicon : Nat) (tag : String) : Except Fault Handle :=
  match c.factory with
  | .handles fallback => .ok ⟨lexicon, tag, c.defaultDomain, fallback⟩
  | .broken => .error (.noHandle tag)

def deliver (c : Client) (r : HandleRequest) (h : Handle) : Client × Option Fault :=
  match c.settle r.promise (.kept (.handle h)) with
  | (c, some f) => (c, some f)
  | (c, none) =>
    match r.onSuccess with
    | some g => c.call r.request g (.ready h)
    | none => (c, none)

/-- Breaks the promise of a handle. The fault is raised if only successes were asked for. -/
def refuse (c : Client) (r : HandleRequest) (f : Fault) : Client × Option Fault :=
  match c.settle r.promise (.broken f) with
  | (c, some g) => (c, some g)
  | (c, none) =>
    match r.onError, r.onSuccess with
    | some g, _ => c.call r.request g (.failed f)
    | none, some _ => (c, some f)
    | none, none => (c, none)

def hearSuccess (c : Client) (installed : String → Option Nat) :
    Listener → Client × Option Fault
  | .caller request g => c.call request g .present
  | .handle r =>
    match installed r.tag with
    | none => (c, some .notInstalled)
    | some id =>
      match c.makeHandle id r.tag with
      | .ok h => c.deliver r h
      | .error f => (c, some f)

def hearFailure (c : Client) (f : Fault) : Listener → Client × Option Fault
  | .caller request g => c.call request g (.failed f)
  | .handle r => c.refuse r f

def reportInstalled (c : Client) (lexicon : Nat) : Reporter → Client × Option Fault
  | .caller request g => c.call request g (.installed lexicon)
  | .promise id tag => (c.offer tag).settle id (.kept (.lexicon lexicon))

def reportFailed (c : Client) (f : Fault) : Reporter → Client × Option Fault
  | .caller request g => c.call request g (.notDefined f)
  | .promise id _ => c.settle id (.broken f)

end Client

end Phrasebook
