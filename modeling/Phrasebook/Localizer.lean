import Phrasebook.Loading.Coordinator
import Phrasebook.Handle

/-!
Localizers: languages on offer, lexicons that are loaded when they are asked for, and handles to
translate with. A request for a handle is resolved to a tag when it is made, and its promise is
settled when the load of that tag is.
-/

namespace Phrasebook

abbrev LexiconSource := String → String → Delivery

structure Localizer where
  coordinator : Coordinator
  /-- The tags of the lexicons that it was made with. Any key can be such a tag, but a lexicon is
  found by a text only. -/
  given : List Value
  registry : Registry Extension
  config : Config
  source : Option LexiconSource

structure Setup where
  languages : Value
  lexicons : Value
  extensions : List (Value × Given Extension)
  factory : Factory
  source : Option LexiconSource
  library : Locale.Library

namespace Setup

def keysOf (v : Value) : Except Fault (List Value) :=
  if v.holds then
    match v.items? with
    | some items => if Value.areKeys items then .ok items else .error .wrongKind
    | none => .error .wrongKind
  else .ok []

def lexiconsOf (v : Value) : Except Fault (List (Value × Value)) :=
  if v.holds then
    match v with
    | .map rows => .ok rows
    | _ => .error .noAttribute
  else .ok []

def languagesFault (v : Value) : Fault :=
  .config (Config.invalid "languages" v "sequence of tags, not str")

/-- The languages on offer: those that are named, and those that lexicons are given for. -/
def offered (s : Setup) : Except Fault (List Value) := do
  let languages ← keysOf s.languages
  let tags ← keysOf s.lexicons
  return Value.distinct (languages ++ tags)

end Setup

namespace Localizer

def desk (l : Localizer) : Desk Success Failure := l.coordinator.desk

def client (l : Localizer) : Client := l.coordinator.client

def languages (l : Localizer) : List Value := l.client.languages

def loaded (l : Localizer) : List Value :=
  l.given ++ (l.desk.store.installed.keys.map .text).filter fun tag => !l.given.any (·.same tag)

/-- Only keys can be asked for. -/
def hasLexicon (l : Localizer) (tag : Value) : Except Fault Bool :=
  if tag.isKey then .ok (l.loaded.any (·.same tag)) else .error .wrongKind

def pending (l : Localizer) : List String := l.desk.store.pending.keys

def withCoordinator (l : Localizer) (c : Coordinator) : Localizer := { l with coordinator := c }

def withClient (l : Localizer) (c : Client) : Localizer :=
  l.withCoordinator { l.coordinator with client := c }

def note (l : Localizer) (n : Notice) : Localizer := l.withCoordinator (l.coordinator.note n)

def empty (s : Setup) (config : Config) (registry : Registry Extension)
    (languages : List Value) : Localizer where
  coordinator :=
    { desk := .empty ⟨s.source.isSome, config.loadTimeout, config.baseUrl⟩
      client := ⟨languages, [], [], 0, s.factory, config.defaultDomain⟩ }
  given := []
  registry := registry
  config := config
  source := s.source

def give (l : Localizer) (tag data : Value) : Except Fault Localizer :=
  let given := l.given ++ [tag]
  match tag with
  | .text s =>
    match l.coordinator.define s data none none none with
    | (c, none) => .ok { l.withCoordinator c with given }
    | (_, some f) => .error f
  | _ => ((LexiconData.ofValue data).mapError Fault.data).map fun _ => { l with given }

def create (s : Setup) (config : Config) : Except Fault Localizer :=
  match s.languages with
  | .text _ => .error (Setup.languagesFault s.languages)
  | _ => do
    let registry ← Registry.registerAll (Registry.builtins s.library) s.extensions
    let languages ← s.offered
    if languages.isEmpty then throw .languagesRequired
    let lexicons ← Setup.lexiconsOf s.lexicons
    lexicons.foldlM (fun l row => l.give row.1 row.2) (empty s config registry languages)

def isLanguageOption (name : Value) : Bool :=
  match name with
  | .text s => s = "languages" || s = "lexicons"
  | _ => false

def ofOptions (rows : List (Value × Value)) (extensions : List (Value × Given Extension))
    (factory : Factory) (source : Option LexiconSource) (library : Locale.Library) :
    Except Fault Localizer := do
  let option (name : String) : Value := (Value.row? (.text name) rows).getD .none
  let config ← (Config.ofOptions (rows.filter (!isLanguageOption ·.1))).mapError Fault.config
  create ⟨option "languages", option "lexicons", extensions, factory, source, library⟩ config

def resolve (l : Localizer) (requested : String) : Except Fault String :=
  match Language.resolve requested l.client.tags l.config.fallbackLanguages with
  | some tag => .ok tag
  | none => .error (.noLanguage requested)

/-- A request for no tag is one for the language of the user. -/
def requested (tag : Option String) (s : Locale.Surroundings) : String :=
  tag.getD ((Locale.detect s).getD Locale.defaultTag)

def getHandle (l : Localizer) (requested : String) (onSuccess onError : Option (Given Callback)) :
    Localizer × Except Fault Nat :=
  let (request, client) := l.client.accept
  let (promise, client) := client.promise
  match l.resolve requested with
  | .error f =>
    let l := (l.withClient client).note (.noLanguage requested)
    match l.client.refuse ⟨request, promise, requested, onSuccess, onError⟩ f with
    | (client, none) => (l.withClient client, .ok promise)
    | (client, some f) => (l.withClient client, .error f)
  | .ok tag =>
    let r : Listener := .handle ⟨request, promise, tag, onSuccess, onError⟩
    let (c, answer) := (l.withClient client).coordinator.ensure tag
      ⟨.listener r, some (.listener r)⟩
    (l.withCoordinator c, answer.map fun _ => promise)

/-- What a promise is kept with, without waiting. -/
def result (l : Localizer) (promise : Nat) : Except Fault Product :=
  match l.client.promises[promise]? with
  | some (.kept p) => .ok p
  | some (.broken f) => .error f
  | _ => .error .pending

def handle (l : Localizer) (requested : String) : Localizer × Except Fault Product :=
  match l.getHandle requested none none with
  | (l, .ok promise) => (l, l.result promise)
  | (l, .error f) => (l, .error f)

def defineLexicon (l : Localizer) (tag : String) (data : Value) (base : Option String) :
    Localizer × Except Fault Nat :=
  let (promise, client) := l.client.promise
  let r := Reporter.promise promise tag
  match (l.withClient client).coordinator.define tag data base (some r) (some r) with
  | (c, none) => (l.withCoordinator c, .ok promise)
  | (c, some f) => (l.withCoordinator c, .error f)

def define (l : Localizer) (tag : String) (data : Value) (base : Option String)
    (onInstalled onFailed : Option (Given Callback)) : Localizer × Option Fault :=
  let (request, client) := l.client.accept
  let (c, raised) := (l.withClient client).coordinator.define tag data base
    (onInstalled.map (Reporter.caller request)) (onFailed.map (Reporter.caller request))
  (l.withCoordinator c, raised)

/-- Both callbacks must be functions, but the one for errors may be left out. -/
def checkCallbacks (onSuccess : Given Callback) (onError : Option (Given Callback)) :
    Option Fault :=
  match onSuccess, onError with
  | .value kind, _ => some (.callbackKind .onSuccess kind)
  | .function _, some (.value kind) => some (.callbackKind .onError kind)
  | .function _, _ => none

def ensureLoaded (l : Localizer) (tag : String) (onSuccess : Given Callback)
    (onError : Option (Given Callback)) : Localizer × Except Fault Registered :=
  match checkCallbacks onSuccess onError with
  | some f => (l, .error f)
  | none =>
    let (request, client) := l.client.accept
    let (c, answer) := (l.withClient client).coordinator.ensure tag
      ⟨.listener (.caller request onSuccess),
        onError.map fun g => .listener (.caller request g)⟩
    (l.withCoordinator c, answer)

def registerExtension (l : Localizer) (name : Value) (extension : Given Extension) :
    Localizer × Except Fault Unit :=
  match l.registry.register name extension with
  | .ok registry => ({ l with registry }, .ok ())
  | .error f => (l, .error f)

/-- The loader answers the oldest errand for a tag. The answer says what was raised, if there was
such an errand. -/
def runLoader (l : Localizer) (tag : String) : Localizer × Option (Option Fault) :=
  match l.desk.store.oldest? tag (·.fetch = .outstanding), l.source with
  | some id, some source =>
    let (c, raised) := l.coordinator.deliver id (source tag l.config.baseUrl)
    (l.withCoordinator c, some raised)
  | _, _ => (l, none)

def expireOldest (l : Localizer) (tag : String) (p : Timer → Bool) :
    Localizer × Option (Option Fault) :=
  match l.desk.store.oldest? tag (fun load => p load.timer) with
  | some id =>
    let (c, raised) := l.coordinator.expire id
    (l.withCoordinator c, some raised)
  | none => (l, none)

def expire (l : Localizer) (tag : String) : Localizer × Option (Option Fault) :=
  l.expireOldest tag (· = .armed)

/-- A timer that is cancelled too late fires all the same. -/
def expireLate (l : Localizer) (tag : String) : Localizer × Option (Option Fault) :=
  l.expireOldest tag fun t => t = .armed || t = .cancelled

def lexiconOf? (l : Localizer) (h : Handle) : Option Lexicon := l.desk.shelf[h.lexicon]?

def putBack (l : Localizer) (place : Nat) (lexicon : Lexicon) (notices : List Notice) :
    Localizer :=
  let desk := l.desk
  l.withCoordinator
    { l.coordinator with
      desk := { desk with
        shelf := desk.shelf.set place lexicon
        notices := desk.notices ++ notices } }

def translate (l : Localizer) (h : Handle) (key : String) (args : List Value)
    (domain : Option String) : Localizer × Except Fault String :=
  match l.lexiconOf? h with
  | none => (l, .error .notInstalled)
  | some lexicon =>
    let (o, lexicon) := h.translate l.registry lexicon key args domain
    (l.putBack h.lexicon lexicon o.notices, o.result)

def quantify (l : Localizer) (h : Handle) (args : List Value) :
    Localizer × Except Fault Value :=
  let o := h.quantify l.registry args
  (o.notices.foldl note l, o.result)

/-- A language can hold an integer that is too long to be written. -/
def text (l : Localizer) : Option String := do
  let languages ← (Value.list l.languages).quoted
  let loaded ← (Value.list l.loaded).quoted
  return "Localizer(languages=" ++ languages ++ ", loaded=" ++ loaded ++ ")"

end Localizer

end Phrasebook
