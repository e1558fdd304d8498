import Phrasebook.Proofs.Document.Reading
import Phrasebook.Proofs.Lexicon.Content
import Phrasebook.Proofs.Loading.Cascade
import Phrasebook.Proofs.Loading.Upshot

/-!
# Loads that files answer

The data of which a load makes its lexicon came with the answer to its own errand, and were used at
once or kept by a waiter until the base was there. What files answer was read from a document, so
such data were checked before the load heard of them. The load may fail for its time, for its file
or for its base, but not for its data.
-/

namespace Phrasebook

open LexiconData (WellShaped)

namespace Files

def Answers (result : Except Phrasebook.Fault Resource) : Prop :=
  ∃ (l : Loader) (fs : FileSystem) (tag location : String),
    result = (l.load fs tag location).mapError Fault.file

theorem read_of_load {l : Loader} {fs : FileSystem} {tag location : String} {r : Resource}
    (h : l.load fs tag location = .ok r) : ∃ document, Document.read document = .ok r := by
  obtain ⟨path, -, h⟩ := Localizer.bind_eq_ok h
  obtain ⟨bytes, -, h⟩ := Localizer.bind_eq_ok h
  obtain ⟨text, -, h⟩ := Localizer.bind_eq_ok h
  obtain ⟨document, -, h⟩ := Localizer.bind_eq_ok h
  refine ⟨document, ?_⟩
  cases hr : Document.read document with
  | error f =>
    rw [hr] at h
    contradiction
  | ok r' =>
    rw [hr] at h
    exact congrArg Except.ok (Except.ok.inj h)

theorem Answers.cases {result : Except Phrasebook.Fault Resource} (h : Answers result) :
    (∃ document r, Document.read document = .ok r ∧ result = .ok r) ∨
      ∃ f, result = .error (.file f) := by
  obtain ⟨l, fs, tag, location, rfl⟩ := h
  cases hload : l.load fs tag location with
  | ok r =>
    obtain ⟨document, hread⟩ := read_of_load hload
    exact Or.inl ⟨document, r, hread, rfl⟩
  | error f => exact Or.inr ⟨f, rfl⟩

end Files

namespace Coordinator

/-- Whatever is delivered for a load among some actions comes from files. -/
def FromFiles (id : Nat) (as : List Action) : Prop :=
  ∀ result, .deliver id result ∈ as → Files.Answers result

/-- A turn makes a lexicon of data, and settles a load with it. -/
inductive Turn.Builds (id : Nat) (data : Value) : Turn → Prop
  | plain {under} : Builds id data (.finish id data under)
  | based {base} : Builds id data (.success (.extendLoad id base data))

def Action.Brings (id : Nat) (data : Value) (a : Action) : Prop :=
  ∃ base, a = .deliver id (.ok ⟨data, base⟩)

/-- The data that waiters keep for a load have the shape of which lexicons are made. -/
def Shaped (id : Nat) (c : Coordinator) : Prop :=
  ∀ j, ∀ w ∈ (c.loadOf j).waiters, ∀ data, (Turn.success w.onSuccess).Builds id data →
    WellShaped data

/-- What a load that files answer can fail for. -/
inductive Excused (tag : String) : Fault → Prop
  | timedOut {seconds} : Excused tag (.load tag (.timedOut seconds) none)
  | file {f : Files.Fault} :
      Excused tag (.load tag (.failed (Fault.file f).message) (some (.file f)))
  | ownBase : Excused tag (.load tag .ownBase (some (.ownBaseResource tag)))
  | base {base f} : Excused tag (.load tag (.baseFailed base) (some f))

section Origins

variable {c b : Coordinator} {a : Action} {as : List Action} {id : Nat} {data : Value}
  {x : Delivery} {t : Turn} {tag : String} {w : Waiter Success Failure}

/-- A step takes a turn by itself when it installs a lexicon that was given, or when the loader
has answered. -/
theorem turn_cases (h : a.deed c = .turn t) :
    (∃ l r, t = .install l r) ∨
      ∃ id result, a = .deliver id result ∧ Concludes c id (delivery result) (.turn t) := by
  cases a with
  | ensure t onSuccess onError =>
    simp only [Action.deed, Deed.request] at h
    split at h <;> contradiction
  | define t data base onInstalled onFailed =>
    simp only [Action.deed, Deed.definition] at h
    split at h
    · contradiction
    · cases h
      exact Or.inl ⟨_, _, rfl⟩
    · split at h <;> contradiction
  | install l =>
    cases h
    exact Or.inl ⟨_, _, rfl⟩
  | deliver id result =>
    rcases errand_concludes h with h | ⟨-, hc⟩
    · contradiction
    · exact Or.inr ⟨id, result, rfl, hc⟩
  | expire id => contradiction

theorem brings_of_ask (h : a.deed c = .ask tag w)
    (hw : (Turn.success w.onSuccess).Builds id data) : a.Brings id data := by
  cases a with
  | ensure t onSuccess onError =>
    obtain rfl := ask_of_request h
    cases hw
  | define t data base onInstalled onFailed =>
    obtain ⟨-, entries, rfl⟩ := ask_of_definition h
    cases hw
  | install l => contradiction
  | deliver j result =>
    obtain ⟨-, -, data, hx, rfl⟩ := ask_of_errand h
    cases hw
    exact ⟨_, congrArg (Action.deliver _) (delivery_eq_resource.mp hx)⟩
  | expire j => contradiction

/-- What a step makes a lexicon of by itself, it was given; waiters that hear of a failure make
none. -/
theorem brings_of_starts (h : Starts b (a.deed c) t) (ht : t.Builds id data) :
    a.Brings id data := by
  generalize hd : a.deed c = deed at h
  cases h with
  | turn =>
    rcases turn_cases hd with ⟨l, r, rfl⟩ | ⟨j, result, rfl, hc⟩
    · cases ht
    · generalize hx : delivery result = x at hc
      cases hc with
      | finish =>
        cases ht
        exact ⟨_, congrArg (Action.deliver _) (delivery_eq_resource.mp hx)⟩
      | fault => cases ht
      | ownBase => cases ht
  | present => exact brings_of_ask hd ht
  | timer hm =>
    obtain ⟨e, -, rfl⟩ := List.mem_map.mp hm
    cases ht

theorem FromFiles.shaped (h : FromFiles id as) (ha : a ∈ as) (hb : a.Brings id data) :
    WellShaped data := by
  obtain ⟨base, rfl⟩ := hb
  rcases (h _ ha).cases with ⟨document, r, hread, heq⟩ | ⟨f, heq⟩
  · cases heq
    exact Document.shaped_of_read hread
  · contradiction

end Origins

section Shaped

variable {c d : Coordinator} {a : Action} {as : List Action} {id j : Nat} {data : Value}
  {t : Turn} {outcome : Option Fault}

theorem Shaped.of_eq (h : Shaped id c)
    (hwaiters : ∀ j, (d.loadOf j).waiters = (c.loadOf j).waiters) : Shaped id d := by
  intro j w hw
  rw [hwaiters] at hw
  exact h j w hw

theorem Shaped.alike (h : Shaped id c) (ha : Alike c d) : Shaped id d := h.of_eq ha.waiters

theorem Shaped.later (h : Shaped id c) (hl : Later c d) : Shaped id d :=
  h.of_eq fun j => (hl.desk.load j).waiters

theorem Shaped.queued {tag : String} {w : Waiter Success Failure} {q : Nat}
    {e : Desk Success Failure} (h : Shaped id c) (hq : c.desk.Queues tag w q e)
    (hw : ∀ data, (Turn.success w.onSuccess).Builds id data → WellShaped data) :
    Shaped id { c with desk := e } := by
  intro j x hx
  by_cases hj : j = q
  · subst hj
    rcases List.mem_append.mp (hq.waiters ▸ hx) with hx | hx
    · exact h j x hx
    · exact List.mem_singleton.mp hx ▸ hw
  · rw [loadOf_eq, hq.other j hj] at hx
    exact h j x hx

theorem shaped_act (hs : c.desk.Sound) (h : Shaped id c) (hfiles : FromFiles id [a]) :
    Shaped id (c.act a).1 :=
  kept_act hs a h (fun h => h.alike (alike_base c a)) (fun h hl => h.later hl)
    fun h hd hq => h.queued hq fun _ hb =>
      hfiles.shaped List.mem_cons_self (brings_of_ask hd hb)

theorem shaped_run (hs : c.Sound) (h : Shaped id c) (hfiles : FromFiles id as) :
    Shaped id (run c as) := by
  induction as generalizing c with
  | nil => exact h
  | cons a as ih =>
    have hone : FromFiles id [a] := fun result hm =>
      hfiles result (List.mem_singleton.mp hm ▸ List.mem_cons_self)
    have hrest : FromFiles id as := fun result hm => hfiles result (List.mem_cons_of_mem a hm)
    exact ih (Driver.sound_step (d := driver) hs a) (shaped_act hs.desk h hone) hrest

theorem Shaped.turns (h : Shaped id c) (hm : t ∈ (c.loadOf j).turns outcome)
    (ht : t.Builds id data) : WellShaped data := by
  rw [Load.turns_eq] at hm
  obtain ⟨w, hw, hwt⟩ := List.mem_filterMap.mp hm
  cases outcome with
  | none =>
    obtain rfl := Option.some.inj hwt
    exact h j w hw data ht
  | some f =>
    obtain ⟨e, -, rfl⟩ := Option.map_eq_some_iff.mp hwt
    cases ht

theorem Course.shaped {s : Step} {is : List Incident} {owner : Option Nat} {c₁ : Coordinator}
    {raised : Option Fault} (h : Course (a.base c) (a.deed c) s is) (hs : c.desk.Sound)
    (hkept : Shaped id c) (hfiles : FromFiles id [a]) (hm : .turn owner c₁ t raised ∈ is)
    (ht : t.Builds id data) : WellShaped data := by
  have halike := alike_base c a
  -- a turn is taken by the step itself, or for a waiter that was there when the step began
  obtain ⟨holder, b, ts, hl, hscene, hstarts⟩ := h.scene (halike.sound hs) hm
  cases hscene.origin with
  | given _ hgiven =>
    exact hfiles.shaped List.mem_cons_self (brings_of_starts (hstarts t hgiven) ht)
  | waiter _ _ hwaits _ => exact ((hkept.alike halike).later hl).turns hwaits ht

end Shaped

section Excuses

variable {c : Coordinator} {a : Action} {s : Step} {is : List Incident} {id : Nat} {g : Fault}

theorem Course.timed_out (h : Course c (.expire id) s is) (hm : .settled id (some g) ∈ is) :
    ∃ seconds, g = .load (c.loadOf id).tag (.timedOut seconds) none := by
  cases h with
  | never => exact absurd hm List.not_mem_nil
  | late => exact absurd hm List.not_mem_nil
  | @expired id seconds f d gs is hl hf h =>
    obtain ⟨he, -, h⟩ := h
    have hone := mem_outcomesOf.mpr hm
    rw [(h.resolved he).once] at hone
    obtain rfl := Option.some.inj (List.mem_singleton.mp hone)
    exact ⟨seconds, hf⟩

theorem giveUp_not_mem_turns {l : Load Success Failure} {outcome : Option Fault}
    {why : LoadFailure} {cause : Fault} : .giveUp id why cause ∉ l.turns outcome := by
  intro hm
  cases outcome with
  | none =>
    obtain ⟨x, -, hx⟩ := List.mem_map.mp hm
    contradiction
  | some f =>
    obtain ⟨x, -, hx⟩ := List.mem_map.mp hm
    contradiction

theorem turn_of_giveUp {deed : Deed} {why : LoadFailure} {cause : Fault}
    (h : Starts c deed (.giveUp id why cause)) : deed = .turn (.giveUp id why cause) := by
  cases h with
  | turn => rfl
  | timer hm => exact absurd hm giveUp_not_mem_turns

theorem excused_of_giveUp {why : LoadFailure} {cause : Fault} (hfiles : FromFiles id [a])
    (h : a.deed c = .turn (.giveUp id why cause)) :
    Excused (c.loadOf id).tag (.load (c.loadOf id).tag why (some cause)) := by
  rcases turn_cases h with ⟨l, r, heq⟩ | ⟨j, result, rfl, hc⟩
  · contradiction
  · generalize hx : delivery result = x at hc
    cases hc with
    | ownBase => exact .ownBase
    | fault hf =>
      rcases (hfiles result List.mem_cons_self).cases with ⟨document, r, -, rfl⟩ | ⟨f, rfl⟩
      · contradiction
      · cases hx
        cases hf
        exact .file

theorem Course.excused (h : Course (a.base c) (a.deed c) s is) (hs : c.desk.Sound)
    (hkept : Shaped id c) (hfiles : FromFiles id [a]) (hm : .settled id (some g) ∈ is) :
    Excused (c.loadOf id).tag g := by
  have halike := alike_base c a
  have hsb := halike.sound hs
  rcases h.felled hsb hm with hd | ⟨owner, c₁, t, raised, hturn, hcur, hfell⟩
  · rw [hd] at h
    obtain ⟨seconds, rfl⟩ := h.timed_out hm
    rw [halike.tag]
    exact .timedOut
  · obtain ⟨holder, b, ts, hl, hscene, hstarts⟩ := h.scene hsb hturn
    have htag : (c₁.loadOf id).tag = (c.loadOf id).tag :=
      ((hl.trans hscene.before).desk.load id).tag.trans (halike.tag id)
    -- data that are no lexicon are not what this load was given
    have hdata : ∀ {data f}, LexiconData.ofValue data = .error f → ¬ t.Builds id data := by
      intro data f hd hb
      obtain ⟨entries, hok⟩ :=
        LexiconData.ofValue_ok_iff.mpr (h.shaped hs hkept hfiles hturn hb)
      exact absurd (hd.symm.trans hok) nofun
    cases hfell with
    | giveUp =>
      rw [htag]
      cases hscene.origin with
      | given _ hgiven => exact excused_of_giveUp hfiles (turn_of_giveUp (hstarts _ hgiven))
      | waiter _ _ hwaits _ => exact absurd hwaits giveUp_not_mem_turns
    | base =>
      rw [htag]
      exact .base
    | malformed hd _ => exact absurd .plain (hdata hd)
    | overlay hd _ _ => exact absurd .based (hdata hd)

end Excuses

theorem shaped_start (id : Nat) (service : Service) (client : Client) :
    Shaped id (start service client) := fun _ _ hw => absurd hw List.not_mem_nil

/-- In every state, a step makes lexicons only of data that have the right shape, as far as it does
so for a load that files answer; if it gives such a load up, this is not for its data. -/
theorem course_of_files (service : Service) (client : Client) {before : List Action} {a : Action}
    {id : Nat} (hfiles : FromFiles id (before ++ [a])) :
    let c := run (start service client) before
    ∃ is, Course (a.base c) (a.deed c) (c.act a) is ∧
      (∀ owner c₁ t raised data, .turn owner c₁ t raised ∈ is → t.Builds id data →
        ∃ entries, LexiconData.ofValue data = .ok entries) ∧
      ∀ g, .settled id (some g) ∈ is → Excused (c.loadOf id).tag g := by
  intro c
  have hs : c.Sound := Driver.sound_run (d := driver) (sound_start service client) before
  have hbefore : FromFiles id before := fun result hm => hfiles result (List.mem_append_left _ hm)
  have ha : FromFiles id [a] := fun result hm => hfiles result (List.mem_append_right _ hm)
  have hkept : Shaped id c :=
    shaped_run (sound_start service client) (shaped_start id service client) hbefore
  obtain ⟨is, h⟩ := course_perform ((alike_base c a).sound hs.desk) (a.deed c)
  rw [← act_eq hs.desk] at h
  refine ⟨is, h, fun owner c₁ t raised data hm ht => ?_, fun g hm => ?_⟩
  · exact LexiconData.ofValue_ok_iff.mpr (h.shaped hs.desk hkept ha hm ht)
  · exact h.excused hs.desk hkept ha hm

end Coordinator

open Coordinator in
/-- A document is refused, or what is read from it can be installed under every tag and put over
every lexicon, and its base, if there is one, is not empty. So no load that files answer fails for
its data, whatever else is done and in whatever order. And reading inverts writing: data that are
wrapped with a base come back with it, and bare data come back as they are, unless one of their
domains is `lexicon` and none is anything but `lexicon` and `base`. -/
theorem documents_install_and_read_back :
    (∀ document, (∃ f, Document.read document = .error f) ∨
      ∃ r entries, Document.read document = .ok r ∧ r.base ≠ some "" ∧
        LexiconData.ofValue r.data = .ok entries ∧
          ∀ t (l : Lexicon), (Lexicon.ofData t entries).source = entries ∧
            LexiconData.Overlays (l.derive t entries).source l.source entries) ∧
    (∀ service client before (a : Coordinator.Action) id, FromFiles id (before ++ [a]) →
      let c := run (start service client) before
      ∃ is, Course (a.base c) (a.deed c) (c.act a) is ∧
        (∀ owner c₁ t raised data, .turn owner c₁ t raised ∈ is → t.Builds id data →
          ∃ entries, LexiconData.ofValue data = .ok entries) ∧
        ∀ g, .settled id (some g) ∈ is → Excused (c.loadOf id).tag g) ∧
    ∀ rows, WellShaped (.map rows) →
      (∀ b document, b ≠ "" →
        document.Perm [(.text "lexicon", .map rows), (.text "base", .text b)] →
          Document.read (.map document) = .ok ⟨.map rows, some b⟩) ∧
      (Document.read (.map rows) = .ok ⟨.map rows, none⟩ ↔ ¬ Document.Wraps rows) := by
  refine ⟨fun document => ?_, fun service client before a id h => ?_, fun rows hshape => ?_⟩
  · cases hr : Document.read document with
    | error f => exact Or.inl ⟨f, rfl⟩
    | ok r =>
      obtain ⟨entries, hentries⟩ := LexiconData.ofValue_ok_iff.mpr (Document.shaped_of_read hr)
      refine Or.inr ⟨r, entries, rfl, Document.base_of_read hr, hentries, fun t l => ?_⟩
      exact ⟨Lexicon.source_ofData t entries, l.derive_overlays t entries⟩
  · exact course_of_files service client h
  · refine ⟨fun b document hb hperm => ?_, Document.read_bare_iff hshape⟩
    exact Document.read_wrapped hperm hb hshape

open Coordinator in
/-- The file of a load names a base, which is loaded from another file. -/
theorem documents_install_and_read_back_based :
    let bytes (s : String) : List UInt8 := s.toList.map fun c => c.toNat.toUInt8
    let fs : Files.FileSystem := .ofFiles [] [
      ("de.json", bytes "\x7b\"lexicon\": \x7b\"*\": \x7b\x7d\x7d, \"base\": \"en\"\x7d"),
      ("en.json", bytes "\x7b\"lexicon\": \x7b\x7d, \"*\": \x7b\x7d\x7d")]
    let loader : Files.Loader := ⟨".json", none⟩
    let answer (tag : String) := (loader.load fs tag "").mapError Fault.file
    let before : List Coordinator.Action :=
      [.ensure "de" (.function ⟨"ok", none⟩) none, .deliver 0 (answer "de")]
    let a : Coordinator.Action := .deliver 1 (answer "en")
    let c := run (start ⟨true, ⟨.whole 5, rfl⟩, ""⟩ ⟨[], [], [], 0, .broken, "*"⟩) before
    let rows : List (Value × Value) := [(.text "*", .map [(.text "a", .text "A")])]
    (FromFiles 0 (before ++ [a]) ∧ (c.loadOf 1).tag = "en" ∧
      (c.act a).1.desk.store.contains "de" ∧
      ∃ is, Course (a.base c) (a.deed c) (c.act a) is ∧
        ∀ g, .settled 0 (some g) ∈ is → Excused (c.loadOf 0).tag g) ∧
    WellShaped (.map rows) ∧ "en" ≠ "" ∧
      Document.read (.map [(.text "base", .text "en"), (.text "lexicon", .map rows)]) =
        .ok ⟨.map rows, some "en"⟩ ∧
      Document.read (.map rows) = .ok ⟨.map rows, none⟩ := by
  intro bytes fs loader answer before a c rows
  obtain ⟨-, hloads, hround⟩ := documents_install_and_read_back
  have hfiles : FromFiles 0 (before ++ [a]) := by
    intro result hm
    have hanswer : ∀ tag, Files.Answers (answer tag) := fun tag => ⟨loader, fs, tag, "", rfl⟩
    have hresult : result = answer "de" := by simpa [before, a] using hm
    exact hresult ▸ hanswer "de"
  have htag : (c.loadOf 1).tag = "en" := by decide +kernel
  have hinstalled : (c.act a).1.desk.store.contains "de" := by decide +kernel
  have hshape : WellShaped (.map rows) := LexiconData.ofValue_ok_iff.mp ⟨_, rfl⟩
  obtain ⟨hwrapped, hbare⟩ := hround rows hshape
  have hplain : ¬ Document.Wraps rows := by
    intro h
    obtain ⟨row, hrow, hkey⟩ := h.lexicon
    rw [List.mem_singleton.mp hrow] at hkey
    exact absurd (Value.text.inj hkey) (by decide)
  obtain ⟨is, hcourse, -, hexcused⟩ := hloads _ _ before a 0 hfiles
  have hne : "en" ≠ "" := by decide
  exact ⟨⟨hfiles, htag, hinstalled, is, hcourse, hexcused⟩, hshape, hne,
    hwrapped "en" _ hne (.swap ..), hbare.mpr hplain⟩

end Phrasebook
