import Phrasebook.Proofs.Loading.Deed

/-!
# Runs of a localizer

A localizer takes steps with its coordinator: requests for handles and lexicons, definitions, and
the answers of loaders and timers. Rendering with a handle touches lexicons and notices only.
-/

namespace Phrasebook

namespace Localizer

open Coordinator

/-- All that can happen to a localizer, apart from questions that change nothing. -/
inductive Action where
  | getHandle (requested : String) (onSuccess onError : Option (Given Callback))
  | ensureLoaded (tag : String) (onSuccess : Given Callback) (onError : Option (Given Callback))
  | defineLexicon (tag : String) (data : Value) (base : Option String)
  | define (tag : String) (data : Value) (base : Option String)
      (onInstalled onFailed : Option (Given Callback))
  | registerExtension (name : Value) (extension : Given Extension)
  | translate (h : Handle) (key : String) (args : List Value) (domain : Option String)
  | quantify (h : Handle) (args : List Value)
  | deliver (load : Nat) (d : Delivery)
  | expire (load : Nat)

def Action.occasion : Action → Occasion
  | deliver id _ => .answer id
  | expire id => .timer id
  | _ => .call

def faultOf {α : Type} (s : Localizer × Except Fault α) : Localizer × Option Fault :=
  match s with
  | (l, .ok _) => (l, none)
  | (l, .error f) => (l, some f)

def act (l : Localizer) : Action → Localizer × Option Fault
  | .getHandle requested onSuccess onError => faultOf (l.getHandle requested onSuccess onError)
  | .ensureLoaded tag onSuccess onError => faultOf (l.ensureLoaded tag onSuccess onError)
  | .defineLexicon tag data base => faultOf (l.defineLexicon tag data base)
  | .define tag data base onInstalled onFailed => l.define tag data base onInstalled onFailed
  | .registerExtension name extension => faultOf (l.registerExtension name extension)
  | .translate h key args domain => faultOf (l.translate h key args domain)
  | .quantify h args => faultOf (l.quantify h args)
  | .deliver id d =>
    if (l.coordinator.loadOf id).fetch = .outstanding then
      let (c, raised) := l.coordinator.deliver id d
      (l.withCoordinator c, raised)
    else (l, none)
  | .expire id =>
    let (c, raised) := l.coordinator.elapse id
    (l.withCoordinator c, raised)

def seenStep (s : Localizer × Option Fault) : Step := (s.1.coordinator, s.2)

def promised (c : Coordinator) : Coordinator := { c with client := c.client.promise.2 }

def NextTicket (c : Coordinator) (k : Ticket) : Prop :=
  k = .request c.client.requests ∨ k = .promise c.client.promises.length

section Moves

variable {c : Coordinator}

theorem unissued_of_nextTicket {k : Ticket} (h : NextTicket c k) : ¬ k.Issued c.client := by
  rcases h with rfl | rfl
  · exact Nat.lt_irrefl _
  · exact Nat.lt_irrefl _

theorem readies_promised (hs : c.desk.Sound) :
    Readies (· = .promise c.client.promises.length) .call c (promised c) := by
  refine readies_of_store hs rfl rfl rfl c.client.numbers_promise ?_
  rintro k rfl
  change c.client.promises.length < (c.client.promises ++ [Promise.pending]).length
  simp

theorem foldl_note (ns : List Notice) (l : Localizer) :
    ∃ n, (ns.foldl note l).coordinator =
      { l.coordinator with desk := { l.coordinator.desk with notices := n } } := by
  induction ns generalizing l with
  | nil => exact ⟨_, rfl⟩
  | cons x ns ih =>
    obtain ⟨n, hn⟩ := ih (l.note x)
    exact ⟨n, hn⟩

theorem idle_self {o : Occasion} (hs : c.desk.Sound)
    (hout : ∀ {id}, o = .answer id → (c.loadOf id).fetch ≠ .outstanding) (f : Option Fault) :
    ∃ N, Move N o c (c, f) ∧ ∀ k, N k → ¬ k.Issued c.client :=
  ⟨_, .idle (prepares_self hs hout), nofun⟩

theorem move_answer {α : Type} {l : Localizer} {s : Localizer × Except Fault α}
    (hs : l.coordinator.desk.Sound) (hstore : s.1.desk.store = l.desk.store)
    (hservice : s.1.desk.service = l.desk.service)
    (hshelf : s.1.desk.shelf.length = l.desk.shelf.length) (hclient : s.1.client = l.client) :
    ∃ N, Move N .call l.coordinator (seenStep (faultOf s)) ∧
      ∀ k, N k → ¬ k.Issued l.coordinator.client := by
  have hnumbers : l.coordinator.client.Numbers s.1.coordinator.client := by
    change l.client.Numbers s.1.client
    rw [hclient]
    exact .refl _
  have hp : Prepares (fun _ => False) .call l.coordinator s.1.coordinator :=
    prepares_of_store hs hstore hservice hshelf hnumbers nofun nofun
  rcases s with ⟨l', _ | x⟩
  · exact ⟨_, .idle hp, nofun⟩
  · exact ⟨_, .idle hp, nofun⟩

def requesting (c : Coordinator) : Coordinator :=
  { c with client := c.client.accept.2.promise.2 }

theorem readies_requesting (hs : c.desk.Sound) (n : List Notice) :
    Readies (NextTicket c) .call c
      { requesting c with desk := { c.desk with notices := n } } := by
  refine readies_of_store hs rfl rfl rfl
    (c.client.numbers_accept.trans c.client.accept.2.numbers_promise) ?_
  rintro k (rfl | rfl)
  · exact Nat.lt_succ_self c.client.requests
  · change c.client.promises.length < (c.client.promises ++ [Promise.pending]).length
    simp

def nextRequest (c : Coordinator) (tag : String) (onSuccess onError : Option (Given Callback)) :
    HandleRequest :=
  ⟨c.client.requests, c.client.promises.length, tag, onSuccess, onError⟩

section Calls

variable {l : Localizer}

theorem seenStep_map {α β : Type} (l : Localizer) (s : Coordinator × Except Fault α) (g : α → β) :
    seenStep (faultOf (l.withCoordinator s.1, s.2.map g)) = Coordinator.faultOf s := by
  rcases s with ⟨c, _ | x⟩
  · rfl
  · rfl

theorem seenStep_answer {α : Type} (l : Localizer) (s : Coordinator × Except Fault α) :
    seenStep (faultOf (l.withCoordinator s.1, s.2)) = Coordinator.faultOf s := by
  rcases s with ⟨c, _ | x⟩
  · rfl
  · rfl

theorem getHandle_error {requested : String} {f : Fault} (hr : l.resolve requested = .error f)
    (onSuccess onError : Option (Given Callback)) :
    seenStep (faultOf (l.getHandle requested onSuccess onError)) =
      take announce ((requesting l.coordinator).note (.noLanguage requested))
        (.failure f (.listener (.handle
          (nextRequest l.coordinator requested onSuccess onError)))) := by
  let c := (requesting l.coordinator).note (.noLanguage requested)
  let answer (s : Client × Option Fault) : Step := ({ c with client := s.1 }, s.2)
  simp only [getHandle, hr]
  split
  · rename_i heq
    exact congrArg answer heq.symm
  · rename_i heq
    exact congrArg answer heq.symm

theorem getHandle_ok {requested tag : String} (hr : l.resolve requested = .ok tag)
    (onSuccess onError : Option (Given Callback)) :
    seenStep (faultOf (l.getHandle requested onSuccess onError)) =
      Coordinator.faultOf ((requesting l.coordinator).ensure tag
        ⟨.listener (.handle (nextRequest l.coordinator tag onSuccess onError)),
          some (.listener (.handle (nextRequest l.coordinator tag onSuccess onError)))⟩) := by
  simp only [getHandle, hr]
  exact seenStep_map _ _ _

theorem move_getHandle (hs : l.coordinator.desk.Sound) (requested : String)
    (onSuccess onError : Option (Given Callback)) :
    Move (NextTicket l.coordinator) .call l.coordinator
      (seenStep (faultOf (l.getHandle requested onSuccess onError))) := by
  cases hr : l.resolve requested with
  | error f =>
    rw [getHandle_error hr]
    exact .turn (readies_requesting hs _).toPrepares fun _ h => h
  | ok tag =>
    rw [getHandle_ok hr]
    refine move_ensure (readies_requesting hs l.coordinator.desk.notices) trivial ?_
    rintro k (h | ⟨_, ⟨rfl⟩, h⟩)
    · exact h
    · exact h

theorem move_ensureLoaded (hs : l.coordinator.desk.Sound) (tag : String)
    (onSuccess : Given Callback) (onError : Option (Given Callback)) :
    ∃ N, Move N .call l.coordinator
      (seenStep (faultOf (l.ensureLoaded tag onSuccess onError))) ∧
      ∀ k, N k → ¬ k.Issued l.coordinator.client := by
  unfold ensureLoaded
  split
  · exact idle_self (o := .call) hs nofun _
  · refine ⟨l.coordinator.NextRequest, ?_, ?_⟩
    · have hm : Move l.coordinator.NextRequest .call l.coordinator
          (Coordinator.faultOf (l.coordinator.numbered.ensure tag
            (callerWaiter l.client.requests onSuccess onError))) :=
        move_ensure (readies_numbered hs) trivial fun _ hk => holds_callerWaiter hk
      rwa [← seenStep_answer l] at hm
    · rintro k rfl
      exact Nat.lt_irrefl _

theorem defineLexicon_eq (l : Localizer) (tag : String) (data : Value) (base : Option String) :
    seenStep (faultOf (l.defineLexicon tag data base)) =
      (promised l.coordinator).define tag data base
        (some (.promise l.client.promises.length tag))
        (some (.promise l.client.promises.length tag)) := by
  simp only [defineLexicon]
  split
  · rename_i heq
    exact heq.symm
  · rename_i heq
    exact heq.symm

theorem move_defineLexicon (hs : l.coordinator.desk.Sound) (tag : String) (data : Value)
    (base : Option String) :
    Move (· = .promise l.client.promises.length) .call l.coordinator
      (seenStep (faultOf (l.defineLexicon tag data base))) := by
  have hr : ∀ r ∈ some (Reporter.promise l.client.promises.length tag), ∀ k, r.Holds k →
      k = .promise l.client.promises.length := by
    rintro r ⟨rfl⟩ k hk
    exact hk
  rw [defineLexicon_eq]
  exact move_define (readies_promised hs) tag data base hr hr

theorem translate_keeps (l : Localizer) (h : Handle) (key : String) (args : List Value)
    (domain : Option String) :
    let m := (l.translate h key args domain).1
    m.desk.store = l.desk.store ∧ m.desk.service = l.desk.service ∧
      m.desk.shelf.length = l.desk.shelf.length ∧ m.client = l.client := by
  unfold translate
  split
  · exact ⟨rfl, rfl, rfl, rfl⟩
  · exact ⟨rfl, rfl, List.length_set, rfl⟩

theorem move_act (hs : l.coordinator.desk.Sound) (a : Action) :
    ∃ N, Move N a.occasion l.coordinator (seenStep (l.act a)) ∧
      ∀ k, N k → ¬ k.Issued l.coordinator.client := by
  cases a with
  | getHandle requested onSuccess onError =>
    exact ⟨_, move_getHandle hs requested onSuccess onError, fun _ h => unissued_of_nextTicket h⟩
  | ensureLoaded tag onSuccess onError => exact move_ensureLoaded hs tag onSuccess onError
  | defineLexicon tag data base =>
    exact ⟨_, move_defineLexicon hs tag data base, fun _ h => unissued_of_nextTicket (Or.inr h)⟩
  | define tag data base onInstalled onFailed =>
    exact Coordinator.move_act hs (.define tag data base onInstalled onFailed)
  | registerExtension name extension =>
    refine move_answer hs ?_ ?_ ?_ ?_ <;> (simp only [registerExtension]; split <;> rfl)
  | translate h key args domain =>
    obtain ⟨hstore, hservice, hshelf, hclient⟩ := l.translate_keeps h key args domain
    exact move_answer hs hstore hservice hshelf hclient
  | quantify h args =>
    obtain ⟨n, hn⟩ := foldl_note (h.quantify l.registry args).notices l
    refine move_answer hs ?_ ?_ ?_ ?_
    all_goals
      simp only [quantify, desk, client, hn]
  | deliver id d =>
    simp only [act]
    split
    · rename_i hout
      exact ⟨_, move_deliver hs hout d, nofun⟩
    · rename_i hout
      exact idle_self (o := .answer id) hs (fun ho => Occasion.answer.inj ho ▸ hout) _
  | expire id => exact ⟨_, move_elapse hs id, nofun⟩

end Calls

end Moves

namespace Action

/-- The coordinator after a request was numbered, or an errand taken down as over. Rendering and
registering leave nothing to do after that. -/
def base (l : Localizer) : Action → Coordinator
  | getHandle requested _ _ =>
    match l.resolve requested with
    | .ok _ => requesting l.coordinator
    | .error _ => (requesting l.coordinator).note (.noLanguage requested)
  | ensureLoaded _ onSuccess onError => l.coordinator.requested onSuccess onError
  | defineLexicon .. => promised l.coordinator
  | define .. => l.coordinator.numbered
  | deliver id _ => l.coordinator.heard id
  | expire _ => l.coordinator
  | registerExtension name extension => (l.registerExtension name extension).1.coordinator
  | translate h key args domain => (l.translate h key args domain).1.coordinator
  | quantify h args => (l.quantify h args).1.coordinator

def handleDeed (l : Localizer) (requested : String) (onSuccess onError : Option (Given Callback)) :
    Deed :=
  match l.resolve requested with
  | .error f => .turn (.failure f (.listener (.handle
      (nextRequest l.coordinator requested onSuccess onError))))
  | .ok tag => .ask tag
      ⟨.listener (.handle (nextRequest l.coordinator tag onSuccess onError)),
        some (.listener (.handle (nextRequest l.coordinator tag onSuccess onError)))⟩

def deed (l : Localizer) : Action → Deed
  | getHandle requested onSuccess onError => handleDeed l requested onSuccess onError
  | ensureLoaded tag onSuccess onError => .request l.client.requests tag onSuccess onError
  | defineLexicon tag data base =>
    .definition tag data base (some (.promise l.client.promises.length tag))
      (some (.promise l.client.promises.length tag))
  | define tag data base onInstalled onFailed =>
    .definition tag data base (onInstalled.map (.caller l.client.requests))
      (onFailed.map (.caller l.client.requests))
  | deliver id d => .errand l.coordinator id d
  | expire id => .expire id
  | registerExtension name extension =>
    .nothing (faultOf (l.registerExtension name extension)).2
  | translate h key args domain => .nothing (faultOf (l.translate h key args domain)).2
  | quantify h args => .nothing (faultOf (l.quantify h args)).2

end Action

section Deeds

variable {l : Localizer}

theorem seenStep_nothing {α : Type} (s : Localizer × Except Fault α) :
    seenStep (faultOf s) = s.1.coordinator.perform (.nothing (faultOf s).2) := by
  rcases s with ⟨l', _ | x⟩ <;> rfl

theorem act_eq (hs : l.coordinator.desk.Sound) (a : Action) :
    seenStep (l.act a) = (a.base l).perform (a.deed l) := by
  cases a with
  | getHandle requested onSuccess onError =>
    simp only [act, Action.base, Action.deed, Action.handleDeed]
    cases hr : l.resolve requested with
    | error f => exact getHandle_error hr onSuccess onError
    | ok tag => exact getHandle_ok hr onSuccess onError
  | ensureLoaded tag onSuccess onError =>
    simp only [act, ensureLoaded, Action.base, Action.deed, Coordinator.requested, Deed.request]
    cases checkCallbacks onSuccess onError with
    | some f => rfl
    | none => exact seenStep_answer l _
  | defineLexicon tag data base =>
    exact (defineLexicon_eq l tag data base).trans (define_eq _ tag data base _ _)
  | define tag data base onInstalled onFailed =>
    exact define_eq l.coordinator.numbered tag data base _ _
  | deliver id d =>
    rw [Action.base, Action.deed, ← errand_eq hs]
    simp only [act]
    split <;> rfl
  | expire id => rfl
  | registerExtension name extension => exact seenStep_nothing _
  | translate h key args domain => exact seenStep_nothing _
  | quantify h args => exact seenStep_nothing _

/-- Before anything else is done numbers are given out at most, and rendering is all that is done
when an entry is rendered. -/
theorem alike_base (l : Localizer) (a : Action) :
    (∃ h key args domain, a = .translate h key args domain) ∨ Alike l.coordinator (a.base l) := by
  have hnumbers := l.client.numbers_accept.trans l.client.accept.2.numbers_promise
  cases a with
  | getHandle requested onSuccess onError =>
    right
    simp only [Action.base]
    split <;> exact alike_of_store rfl rfl rfl hnumbers
  | ensureLoaded tag onSuccess onError => exact Or.inr (alike_requested _ onSuccess onError)
  | defineLexicon => exact Or.inr (alike_of_store rfl rfl rfl l.client.numbers_promise)
  | define => exact Or.inr (alike_numbered _)
  | deliver id d => exact Or.inr (alike_heard _ id)
  | expire id => exact Or.inr (alike_self _)
  | registerExtension name extension =>
    right
    simp only [Action.base, registerExtension]
    split <;> exact alike_self _
  | translate h key args domain => exact Or.inl ⟨h, key, args, domain, rfl⟩
  | quantify h args =>
    right
    obtain ⟨n, hn⟩ := foldl_note (h.quantify l.registry args).notices l
    have hbase : (Action.quantify h args).base l = _ := hn
    rw [hbase]
    exact alike_of_store rfl rfl rfl (.refl _)

theorem ask_of_deed {a : Action} {tag : String} {w : Waiter Success Failure}
    (h : a.deed l = .ask tag w) :
    (∃ r, w.onSuccess = .listener (.handle r) ∧ r.tag = tag) ∨
    (∃ number onSuccess onError, w = callerWaiter number onSuccess onError) ∨
    (∃ t entries installed failed, w = definitionWaiter t tag entries installed failed) ∨
    ∃ id data, w = loadWaiter id tag data := by
  cases a with
  | getHandle requested onSuccess onError =>
    simp only [Action.deed, Action.handleDeed] at h
    split at h
    · contradiction
    · cases h
      exact Or.inl ⟨_, rfl, rfl⟩
  | ensureLoaded t onSuccess onError =>
    exact Or.inr (Or.inl ⟨_, _, _, ask_of_request h⟩)
  | defineLexicon t data base =>
    obtain ⟨-, entries, hw⟩ := ask_of_definition h
    exact Or.inr (Or.inr (Or.inl ⟨_, _, _, _, hw⟩))
  | define t data base onInstalled onFailed =>
    obtain ⟨-, entries, hw⟩ := ask_of_definition h
    exact Or.inr (Or.inr (Or.inl ⟨_, _, _, _, hw⟩))
  | deliver id d =>
    obtain ⟨-, -, data, -, hw⟩ := ask_of_errand h
    exact Or.inr (Or.inr (Or.inr ⟨_, _, hw⟩))
  | _ => contradiction

end Deeds

def driver : Driver Localizer Action where
  view := coordinator
  act := act
  occasion := Action.occasion
  moves _ a hs := move_act hs.desk a

def run (l : Localizer) (as : List Action) : Localizer := as.foldl (fun l a => (l.act a).1) l

theorem coordinator_empty (s : Setup) (config : Config) (registry : Registry Extension)
    (languages : List Value) :
    (empty s config registry languages).coordinator =
      start ⟨s.source.isSome, config.loadTimeout, config.baseUrl⟩
        ⟨languages, [], [], 0, s.factory, config.defaultDomain⟩ := rfl

section Create

variable {P : Coordinator → Prop}

theorem kept_give
    (hdefine : ∀ {c} s data, P c → P (c.define s data none none none).1) {l l' : Localizer}
    {tag data : Value} (h : l.give tag data = .ok l') (hp : P l.coordinator) :
    P l'.coordinator := by
  unfold give at h
  split at h
  · rename_i s
    have hp' := hdefine s data hp
    split at h
    · rename_i c heq
      rw [heq] at hp'
      obtain rfl := Except.ok.inj h
      exact hp'
    · contradiction
  · cases hd : (LexiconData.ofValue data).mapError Fault.data with
    | error f =>
      rw [hd] at h
      contradiction
    | ok entries =>
      rw [hd] at h
      obtain rfl := Except.ok.inj h
      exact hp

theorem kept_foldl_give
    (hdefine : ∀ {c} s data, P c → P (c.define s data none none none).1)
    {rows : List (Value × Value)} {l l' : Localizer}
    (h : rows.foldlM (fun l row => l.give row.1 row.2) l = .ok l') (hp : P l.coordinator) :
    P l'.coordinator := by
  induction rows generalizing l with
  | nil =>
    obtain rfl := Except.ok.inj h
    exact hp
  | cons row rows ih =>
    rw [List.foldlM_cons] at h
    cases hg : l.give row.1 row.2 with
    | error f =>
      rw [hg] at h
      contradiction
    | ok l₁ =>
      rw [hg] at h
      exact ih h (kept_give hdefine hg hp)

theorem bind_eq_ok {ε α β : Type} {x : Except ε α} {f : α → Except ε β} {b : β}
    (h : x >>= f = .ok b) : ∃ a, x = .ok a ∧ f a = .ok b := by
  cases x with
  | error e => contradiction
  | ok a => exact ⟨a, rfl, h⟩

theorem move_define_silent {c : Coordinator} (hs : c.desk.Sound) (tag : String) (data : Value) :
    Move (fun _ => False) .call c (c.define tag data none none none) :=
  move_define (o := .call) (readies_of_store hs rfl rfl rfl (.refl _) nofun) tag data none
    nofun nofun

/-- A localizer is made by installing the lexicons it is given, one after the other. -/
theorem kept_create
    (hdefine : ∀ {c} s data, c.Sound → P c → P (c.define s data none none none).1)
    {s : Setup} {config : Config}
    (hstart : ∀ registry languages, P (empty s config registry languages).coordinator)
    {l : Localizer} (h : create s config = .ok l) : l.coordinator.Sound ∧ P l.coordinator := by
  have hgive : ∀ {c} s data, c.Sound ∧ P c →
      (c.define s data none none none).1.Sound ∧ P (c.define s data none none none).1 := by
    rintro c s data ⟨hs, hp⟩
    obtain ⟨-, -, -, hs'⟩ := (move_define_silent hs.desk s data).prepares hs
    exact ⟨hs', hdefine s data hs hp⟩
  have hempty : ∀ registry languages,
      (empty s config registry languages).coordinator.Sound ∧
        P (empty s config registry languages).coordinator := by
    intro registry languages
    exact ⟨coordinator_empty s config registry languages ▸ sound_start _ _, hstart _ _⟩
  unfold create at h
  split at h
  · contradiction
  · obtain ⟨registry, -, h⟩ := bind_eq_ok h
    obtain ⟨languages, -, h⟩ := bind_eq_ok h
    split at h
    · contradiction
    · obtain ⟨lexicons, -, h⟩ := bind_eq_ok h
      exact kept_foldl_give (P := fun c => c.Sound ∧ P c) hgive h (hempty registry languages)

end Create

theorem sound_create {s : Setup} {config : Config} {l : Localizer}
    (h : create s config = .ok l) : l.coordinator.Sound :=
  (kept_create (P := fun _ => True) (fun _ _ _ _ => trivial) (fun _ _ => trivial) h).1

end Localizer

end Phrasebook
