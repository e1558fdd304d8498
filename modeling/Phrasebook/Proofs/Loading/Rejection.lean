import Phrasebook.Locale.Catalogue
import Phrasebook.Proofs.Loading.Localizer

/-!
# Rejected calls

A call is rejected for its arguments alone, whatever the localizer it is made to: a callback or an
extension that cannot be called, a name that cannot be written in a pattern, data of the wrong shape
anywhere in it, a lexicon that is to be its own base. It is rejected before anything is done, so the
localizer goes on as if it had not been made.
-/

namespace Phrasebook

namespace LexiconData

def IsEntry (row : Value × Value) : Prop := ∃ key pattern, row = (.text key, .text pattern)

def IsDomain (row : Value × Value) : Prop :=
  ∃ domain rows, row = (.text domain, .map rows) ∧ ∀ entry ∈ rows, IsEntry entry

def WellShaped (v : Value) : Prop := ∃ rows, v = .map rows ∧ ∀ row ∈ rows, IsDomain row

theorem mapM_ok_iff {α β ε : Type} {f : α → Except ε β} {xs : List α} :
    (∃ ys, xs.mapM f = .ok ys) ↔ ∀ x ∈ xs, ∃ y, f x = .ok y := by
  induction xs with
  | nil => simp [pure, Except.pure]
  | cons x xs ih =>
    rw [List.mapM_cons, List.forall_mem_cons, ← ih]
    cases hx : f x with
    | error e => simp [bind, Except.bind]
    | ok y =>
      cases hxs : xs.mapM f with
      | error e => simp [bind, Except.bind]
      | ok ys => simp [bind, Except.bind, pure, Except.pure]

theorem ofEntry_ok_iff {domain : String} {row : Value × Value} :
    (∃ entry, ofEntry domain row = .ok entry) ↔ IsEntry row := by
  unfold ofEntry
  split
  · rename_i key pattern
    exact ⟨fun _ => ⟨key, pattern, rfl⟩, fun _ => ⟨_, rfl⟩⟩
  · rename_i hne
    constructor
    · rintro ⟨entry, h⟩
      split at h <;> contradiction
    · rintro ⟨key, pattern, h⟩
      exact absurd (Prod.ext_iff.1 h) (fun h => hne key pattern h.1 h.2)

theorem map_ok_iff {α β ε : Type} {x : Except ε α} {g : α → β} :
    (∃ b, (do let a ← x; return g a) = .ok b) ↔ ∃ a, x = .ok a := by
  cases x with
  | error e => simp [bind, Except.bind]
  | ok a => simp [bind, Except.bind, pure, Except.pure]

theorem ofDomain_ok_iff {row : Value × Value} :
    (∃ domain, ofDomain row = .ok domain) ↔ IsDomain row := by
  unfold ofDomain
  split
  · rename_i domain rows
    rw [map_ok_iff, mapM_ok_iff]
    constructor
    · intro h
      exact ⟨domain, rows, rfl, fun entry he => ofEntry_ok_iff.1 (h entry he)⟩
    · rintro ⟨d, rs, h, hentries⟩
      obtain ⟨rfl, rfl⟩ : domain = d ∧ rows = rs := by simpa using h
      exact fun entry he => ofEntry_ok_iff.2 (hentries entry he)
  · rename_i domain v hv
    refine ⟨nofun, ?_⟩
    rintro ⟨d, rs, h, -⟩
    exact absurd (Prod.ext_iff.1 h).2 (hv rs)
  · rename_i k v hk
    refine ⟨nofun, ?_⟩
    rintro ⟨d, rs, h, -⟩
    exact absurd (Prod.ext_iff.1 h).1 (hk d)

/-- Data are taken if and only if they have the right shape throughout. -/
theorem ofValue_ok_iff {v : Value} : (∃ data, ofValue v = .ok data) ↔ WellShaped v := by
  unfold ofValue
  split
  · rename_i rows
    rw [map_ok_iff, mapM_ok_iff]
    constructor
    · intro h
      exact ⟨rows, rfl, fun row hr => ofDomain_ok_iff.1 (h row hr)⟩
    · rintro ⟨rs, h, hrows⟩
      obtain rfl := Value.map.inj h
      exact fun row hr => ofDomain_ok_iff.2 (hrows row hr)
  · rename_i v hv
    refine ⟨nofun, ?_⟩
    rintro ⟨rs, h, -⟩
    exact absurd h (hv rs)

end LexiconData

/-- The faults of arguments that are not what they must be. -/
def Fault.isRejection : Fault → Bool
  | callbackKind .. | data _ | ownBase _ | extensionName _ | extensionKind .. | longNumber => true
  | _ => false

namespace Registry

variable {φ : Type}

theorem register_error_iff (r : Registry φ) {name : Value} {extension : Given φ} :
    (∃ f, r.register name extension = .error f ∧ f.isRejection) ↔
      isName name = none ∨ ∃ kind, extension = .value kind := by
  unfold register
  cases isName name with
  | none =>
    refine ⟨fun _ => .inl rfl, fun _ => ?_⟩
    cases name.quoted with
    | none => exact ⟨_, rfl, rfl⟩
    | some shown => exact ⟨_, rfl, rfl⟩
  | some s =>
    cases extension with
    | function f => simp
    | value kind => exact ⟨fun _ => .inr ⟨kind, rfl⟩, fun _ => ⟨_, rfl, rfl⟩⟩

end Registry

namespace Client

variable (c : Client)

theorem languages_settle (id : Nat) (p : Promise) :
    (c.settle id p).1.languages = c.languages := by
  unfold settle
  split <;> rfl

theorem languages_call (request : Nat) (g : Given Callback) (m : Message) :
    (c.call request g m).1.languages = c.languages := by
  cases g <;> rfl

theorem languages_refuse (r : HandleRequest) (f : Fault) :
    (c.refuse r f).1.languages = c.languages := by
  have hsettle := c.languages_settle r.promise (.broken f)
  unfold refuse
  split
  · rename_i heq
    rwa [heq] at hsettle
  · rename_i heq
    rw [heq] at hsettle
    split
    · exact (languages_call ..).trans hsettle
    · exact hsettle
    · exact hsettle

theorem languages_deliver (r : HandleRequest) (h : Handle) :
    (c.deliver r h).1.languages = c.languages := by
  have hsettle := c.languages_settle r.promise (.kept (.handle h))
  unfold deliver
  split
  · rename_i heq
    rwa [heq] at hsettle
  · rename_i heq
    rw [heq] at hsettle
    split
    · exact (languages_call ..).trans hsettle
    · exact hsettle

theorem languages_hearSuccess (installed : String → Option Nat) (w : Listener) :
    (c.hearSuccess installed w).1.languages = c.languages := by
  unfold hearSuccess
  split
  · exact c.languages_call ..
  · split
    · rfl
    · split
      · exact c.languages_deliver ..
      · rfl

end Client

namespace Coordinator

theorem define_rejected (c : Coordinator) {tag : String} {data : Value} {base : Option String}
    (h : ¬ LexiconData.WellShaped data ∨ base = some tag) :
    ∃ f : Fault, f.isRejection ∧
      ∀ installed failed, c.define tag data base installed failed = (c, some f) := by
  cases hd : LexiconData.ofValue data with
  | error f =>
    refine ⟨.data f, rfl, fun installed failed => ?_⟩
    simp only [define, hd]
  | ok entries =>
    obtain hshape | rfl := h
    · exact absurd (LexiconData.ofValue_ok_iff.1 ⟨entries, hd⟩) hshape
    · refine ⟨.ownBase tag, rfl, fun installed failed => ?_⟩
      simp only [define, hd, if_true]

theorem ensure_raised {c : Coordinator} {tag : String} {w : Listener} {e : Option Failure}
    {f : Fault} (h : (faultOf (c.ensure tag ⟨.listener w, e⟩)).2 = some f) :
    (faultOf (c.ensure tag ⟨.listener w, e⟩)).1 =
      { c with client := (c.client.hearSuccess c.desk.store.get? w).1 } := by
  unfold ensure at h ⊢
  split at h
  · simp only [succeed]
    split <;> rename_i heq <;> exact (congrArg Prod.fst heq).symm
  · contradiction
  · contradiction

end Coordinator

namespace Localizer

/-- A call with an argument that is not what it must be. -/
inductive Action.Malformed : Action → Prop
  | onSuccess {tag kind onError} : Malformed (.ensureLoaded tag (.value kind) onError)
  | onError {tag onSuccess kind} : Malformed (.ensureLoaded tag onSuccess (some (.value kind)))
  | data {tag data base} (h : ¬ LexiconData.WellShaped data) :
      Malformed (.defineLexicon tag data base)
  | ownBase {tag data} : Malformed (.defineLexicon tag data (some tag))
  | definedData {tag data base onInstalled onFailed} (h : ¬ LexiconData.WellShaped data) :
      Malformed (.define tag data base onInstalled onFailed)
  | definedOwnBase {tag data onInstalled onFailed} :
      Malformed (.define tag data (some tag) onInstalled onFailed)
  | name {name extension} (h : Registry.isName name = none) :
      Malformed (.registerExtension name extension)
  | extension {name kind} : Malformed (.registerExtension name (.value kind))

/-- A number was given out at most, and nothing else was done: lexicons, loads with their waiters,
timers and errands, the log, languages, callbacks, promises and extensions are as they were. -/
structure Undisturbed (l m : Localizer) : Prop where
  desk : m.desk = l.desk
  client : l.client.Numbers m.client
  given : m.given = l.given
  registry : m.registry = l.registry
  config : m.config = l.config
  source : m.source = l.source

theorem checkCallbacks_some {onSuccess : Given Callback} {onError : Option (Given Callback)}
    (h : (∃ kind, onSuccess = .value kind) ∨ ∃ kind, onError = some (.value kind)) :
    ∃ f : Fault, f.isRejection ∧ checkCallbacks onSuccess onError = some f := by
  cases onSuccess with
  | value kind => exact ⟨_, rfl, rfl⟩
  | function g =>
    obtain ⟨kind, hk⟩ | ⟨kind, rfl⟩ := h
    · contradiction
    · exact ⟨_, rfl, rfl⟩

section Calls

variable {l : Localizer}

theorem ensureLoaded_rejected {onSuccess : Given Callback} {onError : Option (Given Callback)}
    (h : (∃ kind, onSuccess = .value kind) ∨ ∃ kind, onError = some (.value kind)) (tag : String) :
    ∃ f : Fault, f.isRejection ∧ l.act (.ensureLoaded tag onSuccess onError) = (l, some f) := by
  obtain ⟨f, hf, hcheck⟩ := checkCallbacks_some h
  refine ⟨f, hf, ?_⟩
  simp only [act, ensureLoaded, hcheck, faultOf]

theorem defineLexicon_rejected {tag : String} {data : Value} {base : Option String}
    (h : ¬ LexiconData.WellShaped data ∨ base = some tag) :
    ∃ f : Fault, f.isRejection ∧
      l.act (.defineLexicon tag data base) = (l.withClient l.client.promise.2, some f) := by
  obtain ⟨f, hf, hdefine⟩ := (l.withClient l.client.promise.2).coordinator.define_rejected h
  refine ⟨f, hf, ?_⟩
  simp only [act, defineLexicon, hdefine, faultOf]
  rfl

theorem define_rejected {tag : String} {data : Value} {base : Option String}
    (h : ¬ LexiconData.WellShaped data ∨ base = some tag)
    (onInstalled onFailed : Option (Given Callback)) :
    ∃ f : Fault, f.isRejection ∧ l.act (.define tag data base onInstalled onFailed) =
      (l.withClient l.client.accept.2, some f) := by
  obtain ⟨f, hf, hdefine⟩ := (l.withClient l.client.accept.2).coordinator.define_rejected h
  refine ⟨f, hf, ?_⟩
  simp only [act, define, hdefine]
  rfl

theorem registerExtension_rejected {name : Value} {extension : Given Extension}
    (h : Registry.isName name = none ∨ ∃ kind, extension = .value kind) :
    ∃ f : Fault, f.isRejection ∧ l.act (.registerExtension name extension) = (l, some f) := by
  obtain ⟨f, hregister, hf⟩ := l.registry.register_error_iff.2 h
  refine ⟨f, hf, ?_⟩
  simp only [act, registerExtension, hregister, faultOf]

theorem Undisturbed.refl (l : Localizer) : Undisturbed l l :=
  ⟨rfl, .refl _, rfl, rfl, rfl, rfl⟩

theorem undisturbed_withClient {c : Client} (h : l.client.Numbers c) :
    Undisturbed l (l.withClient c) :=
  ⟨rfl, h, rfl, rfl, rfl, rfl⟩

theorem getHandle_within (l : Localizer) (requested : String)
    (onSuccess onError : Option (Given Callback)) :
    (l.act (.getHandle requested onSuccess onError)).1 = l.withCoordinator
      (seenStep (faultOf (l.getHandle requested onSuccess onError))).1 := by
  simp only [act, getHandle, seenStep]
  split
  · split <;> rfl
  · generalize Coordinator.ensure _ _ _ = s
    rcases s with ⟨c, _ | x⟩ <;> rfl

theorem getHandle_raised {requested : String} {onSuccess onError : Option (Given Callback)}
    {f : Fault} (h : (l.act (.getHandle requested onSuccess onError)).2 = some f) :
    ∃ notices client, client.languages = l.languages ∧
      (l.act (.getHandle requested onSuccess onError)).1 =
        l.withCoordinator ⟨{ l.desk with notices }, client⟩ := by
  have hnumbers := (l.client.numbers_accept.trans l.client.accept.2.numbers_promise).languages
  have hseen : (seenStep (faultOf (l.getHandle requested onSuccess onError))).2 = some f := h
  rw [getHandle_within]
  cases hr : l.resolve requested with
  | error g =>
    rw [getHandle_error hr]
    exact ⟨_, _, (Client.languages_refuse ..).trans hnumbers, rfl⟩
  | ok tag =>
    rw [getHandle_ok hr] at hseen ⊢
    rw [Coordinator.ensure_raised hseen]
    exact ⟨_, _, (Client.languages_hearSuccess ..).trans hnumbers, rfl⟩

/-- A call with an argument that is not what it must be is rejected, and nothing was done. -/
theorem malformed_rejected (l : Localizer) {a : Action} (h : a.Malformed) :
    ∃ f : Fault, f.isRejection ∧ (l.act a).2 = some f ∧ Undisturbed l (l.act a).1 := by
  have hkept : ∀ {m : Localizer}, Undisturbed l m →
      (∃ f : Fault, f.isRejection ∧ l.act a = (m, some f)) →
      ∃ f : Fault, f.isRejection ∧ (l.act a).2 = some f ∧ Undisturbed l (l.act a).1 := by
    rintro m hm ⟨f, hf, hact⟩
    exact ⟨f, hf, by rw [hact], by rwa [hact]⟩
  cases h with
  | onSuccess => exact hkept (.refl l) (ensureLoaded_rejected (.inl ⟨_, rfl⟩) _)
  | onError => exact hkept (.refl l) (ensureLoaded_rejected (.inr ⟨_, rfl⟩) _)
  | data h =>
    exact hkept (undisturbed_withClient l.client.numbers_promise) (defineLexicon_rejected (.inl h))
  | ownBase =>
    exact hkept (undisturbed_withClient l.client.numbers_promise)
      (defineLexicon_rejected (.inr rfl))
  | definedData h =>
    exact hkept (undisturbed_withClient l.client.numbers_accept) (define_rejected (.inl h) _ _)
  | definedOwnBase =>
    exact hkept (undisturbed_withClient l.client.numbers_accept) (define_rejected (.inr rfl) _ _)
  | name h => exact hkept (.refl l) (registerExtension_rejected (.inl h))
  | extension => exact hkept (.refl l) (registerExtension_rejected (.inr ⟨_, rfl⟩))

end Calls

/-- A rejected call changes nothing. A callback that is given to a request for a handle is not looked
at before it is called; then no lexicon, load, language or extension is touched any more. -/
theorem rejected_changes_nothing (l : Localizer) :
    (∀ a : Action, a.Malformed →
      ∃ f : Fault, f.isRejection ∧ (l.act a).2 = some f ∧ Undisturbed l (l.act a).1) ∧
    ∀ requested onSuccess onError f,
      (l.act (.getHandle requested onSuccess onError)).2 = some f →
      ∃ notices client, client.languages = l.languages ∧
        (l.act (.getHandle requested onSuccess onError)).1 =
          l.withCoordinator ⟨{ l.desk with notices }, client⟩ :=
  ⟨fun _ h => l.malformed_rejected h, fun _ _ _ _ h => getHandle_raised h⟩

/-- A lexicon is waited for that is defined with a list in place of a pattern. -/
theorem rejected_changes_nothing_waiting :
    let s : Setup := ⟨.list [.text "en"], .none, [], .broken, none, .catalogue⟩
    let config : Config := ⟨⟨.whole 5, rfl⟩, "", [], "*"⟩
    let l := run (empty s config (Registry.builtins .catalogue) [.text "en"])
      [.ensureLoaded "en" (.function ⟨"present", none⟩) none]
    let data : Value := .map [(.text "*", .map [(.text "a", .text "b"), (.text "k", .list [])])]
    create s config = .ok (empty s config (Registry.builtins .catalogue) [.text "en"]) ∧
      ¬ LexiconData.WellShaped data ∧ l.pending = ["en"] ∧
      ∃ f : Fault, (l.act (.defineLexicon "en" data none)).2 = some f ∧
        (l.act (.defineLexicon "en" data none)).1.pending = ["en"] ∧
          (l.act (.defineLexicon "en" data none)).1.desk.store.loads.length = 1 := by
  intro s config l data
  have hshape : ¬ LexiconData.WellShaped data := by
    rintro ⟨rows, hrows, h⟩
    obtain rfl := Value.map.inj hrows
    obtain ⟨domain, entries, hdomain, hentries⟩ := h _ List.mem_cons_self
    obtain rfl := Value.map.inj (Prod.ext_iff.1 hdomain).2
    obtain ⟨key, pattern, hentry⟩ := hentries _ (List.mem_cons_of_mem _ List.mem_cons_self)
    exact absurd (Prod.ext_iff.1 hentry).2 nofun
  have hpending : l.pending = ["en"] := by decide +kernel
  have hloads : l.desk.store.loads.length = 1 := by decide +kernel
  have hmalformed : Action.Malformed (.defineLexicon "en" data none) := .data hshape
  obtain ⟨f, -, hf, hsame⟩ := (rejected_changes_nothing l).1 _ hmalformed
  refine ⟨rfl, hshape, hpending, f, hf, ?_, ?_⟩
  · rw [pending, hsame.desk]
    exact hpending
  · rw [hsame.desk]
    exact hloads

end Localizer

end Phrasebook
