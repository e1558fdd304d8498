import Phrasebook.Locale.Catalogue
import Phrasebook.Proofs.Loading.Lasting
import Phrasebook.Proofs.Loading.Receipt

/-!
# Installed or pending

A tag is never installed and pending at once, what is installed under a tag is a lexicon of that
tag, and it stays. This holds between steps and in the middle of them, so that whoever is told that
a lexicon is there finds it.
-/

namespace Phrasebook

/-- The tag that someone who is told of success takes to be installed. -/
def Success.Needs : Success → String → Prop
  | .listener (.caller ..), _ => False
  | .listener (.handle r), t => r.tag = t
  | .extendLoad _ base _, t | .extendDefinition _ base _ _, t => base = t

namespace Coordinator

def Tagged (d : Desk Success Failure) : Prop := ∀ t l, d.lexicon? t = some l → l.tag = t

/-- No tag is both installed and pending, and what is installed under a tag has this tag. -/
structure Exclusive (d : Desk Success Failure) : Prop where
  apart : ∀ t, ¬ (d.store.contains t ∧ d.store.isPending t)
  tagged : ∀ t, d.store.contains t → ∃ l, d.lexicon? t = some l ∧ l.tag = t

section Tagged

variable {c d : Coordinator} {e e' : Desk Success Failure}

theorem exclusive_of_sound (hs : e.Sound) (ht : Tagged e) : Exclusive e where
  apart t := by
    rintro ⟨hc, hp⟩
    rw [Store.isPending, Table.contains, hs.store.apart hc] at hp
    contradiction
  tagged t hc := by
    obtain ⟨l, hl⟩ := Option.isSome_iff_exists.mp (hs.lexicon? hc)
    exact ⟨l, hl, ht t l hl⟩

theorem tagged_of_eq (h : Tagged e) (hshelf : e'.shelf.map Lexicon.tag = e.shelf.map Lexicon.tag)
    (hinstalled : e'.store.installed = e.store.installed) : Tagged e' := by
  intro t l hl
  obtain ⟨place, hp, hl⟩ := Option.bind_eq_some_iff.mp hl
  rw [Store.get?, hinstalled] at hp
  have htag : (e.shelf.map Lexicon.tag)[place]? = some l.tag := by
    rw [← hshelf, List.getElem?_map, hl]
    rfl
  rw [List.getElem?_map] at htag
  obtain ⟨x, hx, hxl⟩ := Option.map_eq_some_iff.mp htag
  rw [← hxl]
  exact h t x (Option.bind_eq_some_iff.mpr ⟨place, hp, hx⟩)

theorem Shelves.tagged {l : Lexicon} (h : Shelves e e' l.tag (some l)) (hs : e.Sound)
    (ht : Tagged e) : Tagged e' := by
  intro t y hy
  rw [Desk.lexicon?, h.get?, h.1] at hy
  by_cases hu : l.tag = t
  · rw [if_pos hu, Option.bind_some] at hy
    have hly : l = y := by simpa using hy
    rw [← hly, hu]
  · rw [if_neg hu] at hy
    obtain ⟨place, hp, hy⟩ := Option.bind_eq_some_iff.mp hy
    rw [List.getElem?_append_left (hs.shelved hp)] at hy
    exact ht t y (Option.bind_eq_some_iff.mpr ⟨place, hp, hy⟩)

theorem lasting_tagged : Lasting fun c => Tagged c.desk where
  keeps _ ht hshelf hinstalled _ := tagged_of_eq ht hshelf hinstalled
  shelves hs ht hl _ := hl.tagged hs ht

end Tagged

/-- A waiter for a tag takes nothing to be installed but what it waits for. -/
def Suits (tag : String) (w : Waiter Success Failure) : Prop :=
  ∀ t, w.onSuccess.Needs t → t = tag

/-- Lexicons are under their own tags, and waiters wait for what they need. -/
structure Orderly (c : Coordinator) : Prop where
  sound : c.desk.Sound
  tagged : Tagged c.desk
  suited : ∀ j, ∀ w ∈ (c.loadOf j).waiters, Suits (c.loadOf j).tag w

section Orderly

variable {b c d : Coordinator} {tag : String} {w : Waiter Success Failure} {deed : Deed}
  {s : Step} {is : List Incident}

theorem Suits.awaits (h : Suits tag w) : w.onSuccess.Awaits tag := by
  obtain ⟨x, e⟩ := w
  cases x with
  | listener l => trivial
  | extendLoad id base data => exact h base rfl
  | extendDefinition t base data r => exact h base rfl

theorem Orderly.alike (h : Orderly c) (ha : Alike c b) : Orderly b where
  sound := ha.sound h.sound
  tagged := lasting_tagged.alike h.sound h.tagged ha
  suited j w hw := by
    rw [ha.waiters] at hw
    rw [ha.tag]
    exact h.suited j w hw

theorem Orderly.later (h : Orderly c) (hs : d.desk.Sound) (hl : Later c d)
    (ht : Tagged d.desk) : Orderly d where
  sound := hs
  tagged := ht
  suited j w hw := by
    rw [loadOf_eq, (hl.desk.load j).waiters] at hw
    rw [loadOf_eq, (hl.desk.load j).tag]
    exact h.suited j w hw

theorem Orderly.queued {q : Nat} {e : Desk Success Failure} (h : Orderly c)
    (hq : c.desk.Queues tag w q e) (hw : Suits tag w) : Orderly { c with desk := e } where
  sound := hq.sound h.sound hw.awaits
  tagged := tagged_of_eq h.tagged (congrArg _ hq.shelf) hq.installed
  suited j x hx := by
    have hload : ({ c with desk := e } : Coordinator).loadOf j = e.store.load j := rfl
    rw [hload] at hx ⊢
    by_cases hj : j = q
    · subst hj
      rw [hq.tag]
      rcases List.mem_append.mp (hq.waiters ▸ hx) with hx | hx
      · have hold := h.suited j x hx
        rwa [loadOf_eq, ← hq.tag_eq h.sound.store (Store.lt_of_waiter hx), hq.tag] at hold
      · exact List.mem_singleton.mp hx ▸ hw
    · rw [hq.other j hj] at hx ⊢
      exact h.suited j x hx

theorem Course.orderly (hc : Course c deed s is) (h : Orderly c)
    (hw : ∀ tag w, deed = .ask tag w → Suits tag w) :
    Orderly s.1 ∧ ∀ holder c₁ t raised, .turn holder c₁ t raised ∈ is → Tagged c₁.desk := by
  obtain ⟨ht, hturns⟩ := lasting_tagged.course hc h.sound h.tagged
  refine ⟨?_, hturns⟩
  cases hc with
  | nothing => exact h
  | queued hq => exact h.queued hq (hw _ _ rfl)
  | present _ hc => exact h.later (hc.keeps h.sound).1 (hc.keeps h.sound).2 ht
  | turn hc => exact h.later (hc.keeps h.sound).1 (hc.keeps h.sound).2 ht
  | never => exact h
  | @late id _ => exact h.later (prepares_fired h.sound id).sound (later_fired c id) ht
  | @expired id _ _ _ _ _ _ _ hf =>
    obtain ⟨he, -, hc⟩ := hf
    have ha := hc.announced he
    exact h.later ha.finish ((later_fired c id).trans (ha.into.trans ha.inner)) ht

theorem orderly_perform (h : Orderly c) (hw : ∀ tag w, deed = .ask tag w → Suits tag w) :
    Orderly (c.perform deed).1 := by
  obtain ⟨is, hc⟩ := course_perform h.sound deed
  exact (hc.orderly h hw).1

end Orderly

/-- In the middle of a step no tag is both installed and pending, what was installed before stays
so, and whoever is told of success finds the lexicon that it needs. -/
structure Steady (c : Coordinator) (s : Step) (is : List Incident) : Prop where
  between : ∀ holder c₁ t raised, .turn holder c₁ t raised ∈ is →
    Exclusive c₁.desk ∧ Later c c₁ ∧ Later (take announce c₁ t).1 s.1
  found : ∀ holder c₁ x raised, .turn holder c₁ (.success x) raised ∈ is →
    ∀ t, x.Needs t → ∃ l, c₁.desk.lexicon? t = some l ∧ l.tag = t

section Steady

variable {c c₁ : Coordinator} {deed : Deed} {s : Step} {is : List Incident}

theorem found_of_turns {id : Nat} {outcome : Option Fault} {x : Success} (h : Orderly c)
    (ht : .success x ∈ (c.loadOf id).turns outcome)
    (ha : outcome = none → c₁.desk.store.contains (c.loadOf id).tag) {t : String}
    (hn : x.Needs t) : c₁.desk.store.contains t := by
  rw [Load.turns_eq] at ht
  obtain ⟨w, hw, hwt⟩ := List.mem_filterMap.mp ht
  cases outcome with
  | none =>
    cases Option.some.inj hwt
    rw [h.suited id w hw t hn]
    exact ha rfl
  | some f =>
    obtain ⟨y, -, he⟩ := Option.map_eq_some_iff.mp hwt
    contradiction

theorem Course.steady (hc : Course c deed s is) (h : Orderly c)
    (hw : ∀ tag w, deed = .ask tag w → Suits tag w)
    (ht : ∀ x, deed ≠ .turn (.success x)) : Steady c s is := by
  obtain ⟨-, htagged⟩ := hc.orderly h hw
  have hexclusive : ∀ holder c₁ t raised, .turn holder c₁ t raised ∈ is →
      Exclusive c₁.desk ∧ Later c c₁ ∧ Later (take announce c₁ t).1 s.1 := by
    intro holder c₁ t raised hm
    obtain ⟨owner, b, ts, hl, hscene, -⟩ := hc.scene h.sound hm
    exact ⟨exclusive_of_sound hscene.sound (htagged holder c₁ t raised hm),
      hl.trans hscene.before, hscene.after⟩
  refine ⟨hexclusive, fun holder c₁ x raised hm t hn => ?_⟩
  obtain ⟨owner, b, ts, hl, hscene, hstarts⟩ := hc.scene h.sound hm
  apply (hexclusive holder c₁ _ raised hm).1.tagged
  cases hscene.origin with
  | given _ hx =>
    cases hstarts _ hx with
    | turn => exact absurd rfl (ht x)
    | @present tag w htag =>
      rw [hw tag w rfl t hn]
      exact (hl.trans hscene.before).desk.contains htag
    | timer hx => exact found_of_turns h hx nofun hn
  | waiter _ _ hx ha =>
    rw [loadOf_eq, turns_congr (hl.desk.load _).waiters] at hx
    rw [loadOf_eq, (hl.desk.load _).tag] at ha
    exact found_of_turns h hx ha hn

end Steady

section Run

variable {c : Coordinator} {base : String}

theorem suits_definitionWaiter {t : String} {data : LexiconData}
    {installed failed : Option Reporter} :
    Suits base (definitionWaiter t base data installed failed) :=
  fun _ h => h.symm

theorem suits_loadWaiter {id : Nat} {data : Value} : Suits base (loadWaiter id base data) :=
  fun _ h => h.symm

theorem suits_callerWaiter {tag : String} {request : Nat} {onSuccess : Given Callback}
    {onError : Option (Given Callback)} : Suits tag (callerWaiter request onSuccess onError) :=
  fun _ h => h.elim

theorem suits_of_ask {a : Action} {tag : String} {w : Waiter Success Failure}
    (h : a.deed c = .ask tag w) : Suits tag w := by
  cases fits_of_ask h with
  | caller => exact suits_callerWaiter
  | definition => exact suits_definitionWaiter
  | load => exact suits_loadWaiter

theorem Turn.Outer.ne_success {t : Turn} (h : t.Outer) (x : Success) : t ≠ .success x := by
  cases h <;> nofun

theorem orderly_act (h : Orderly c) (a : Action) : Orderly (c.act a).1 := by
  rw [act_eq h.sound]
  exact orderly_perform (h.alike (alike_base c a)) fun _ _ => suits_of_ask

theorem orderly_run (h : Orderly c) (as : List Action) : Orderly (run c as) := by
  induction as generalizing c with
  | nil => exact h
  | cons a as ih => exact ih (orderly_act h a)

theorem orderly_start (service : Service) (client : Client) : Orderly (start service client) :=
  ⟨(sound_start service client).desk, nofun, fun _ _ hw => absurd hw List.not_mem_nil⟩

theorem steady_act (h : Orderly c) (a : Action) :
    ∃ is, Course (a.base c) (a.deed c) (c.act a) is ∧ Steady (a.base c) (c.act a) is := by
  have hb := h.alike (alike_base c a)
  obtain ⟨is, hc⟩ := course_perform hb.sound (a.deed c)
  rw [← act_eq h.sound] at hc
  refine ⟨is, hc, hc.steady hb (fun _ _ => suits_of_ask) fun x hd => ?_⟩
  exact (Action.outer_of_turn hd).ne_success x rfl

end Run

end Coordinator

namespace Localizer

open Coordinator

section Localizer

variable {l : Localizer}

theorem orderly_base (h : Orderly l.coordinator) (a : Action) : Orderly (a.base l) := by
  rcases alike_base l a with ⟨x, key, args, domain, rfl⟩ | halike
  · refine ⟨sound_base h.sound _, lasting_base lasting_tagged h.sound h.tagged _, ?_⟩
    have hstore : ((Action.translate x key args domain).base l).desk.store = l.desk.store :=
      (l.translate_keeps x key args domain).1
    intro j w hw
    rw [loadOf_eq, hstore] at hw ⊢
    exact h.suited j w hw
  · exact h.alike halike

theorem suits_of_ask {a : Action} {tag : String} {w : Waiter Success Failure}
    (h : a.deed l = .ask tag w) : Suits tag w := by
  rcases ask_of_deed h with ⟨r, hr, rfl⟩ | ⟨number, f, g, rfl⟩ | ⟨t, entries, i, f, rfl⟩ |
    ⟨id, data, rfl⟩
  · intro t ht
    rw [hr] at ht
    exact ht.symm
  · exact suits_callerWaiter
  · exact suits_definitionWaiter
  · exact suits_loadWaiter

theorem deed_ne_success (a : Action) (x : Success) : a.deed l ≠ .turn (.success x) := by
  have hdefinition : ∀ tag data base i f,
      Deed.definition tag data base i f ≠ .turn (.success x) := by
    intro tag data base i f h
    unfold Deed.definition at h
    split at h
    · cases h
    · cases h
    · split at h <;> cases h
  cases a with
  | getHandle requested onSuccess onError =>
    intro h
    simp only [Action.deed, Action.handleDeed] at h
    split at h <;> cases h
  | ensureLoaded tag onSuccess onError =>
    intro h
    simp only [Action.deed, Deed.request] at h
    split at h <;> cases h
  | defineLexicon => exact hdefinition _ _ _ _ _
  | define => exact hdefinition _ _ _ _ _
  | deliver id d => exact fun h => (Deed.outer_of_errand h).ne_success x rfl
  | _ => simp [Action.deed]

theorem orderly_act (h : Orderly l.coordinator) (a : Action) :
    Orderly (l.act a).1.coordinator := by
  have heq : (l.act a).1.coordinator = ((a.base l).perform (a.deed l)).1 :=
    congrArg Prod.fst (act_eq h.sound a)
  rw [heq]
  exact orderly_perform (orderly_base h a) fun _ _ => suits_of_ask

theorem orderly_run (h : Orderly l.coordinator) (as : List Action) :
    Orderly (run l as).coordinator := by
  induction as generalizing l with
  | nil => exact h
  | cons a as ih => exact ih (orderly_act h a)

theorem orderly_create {s : Setup} {config : Config} (h : create s config = .ok l) :
    Orderly l.coordinator := by
  refine (kept_create (P := Orderly) (fun {c} tag data _ hc => ?_) (fun registry languages => ?_)
    h).2
  · rw [define_eq]
    refine orderly_perform hc fun t w hd => ?_
    obtain ⟨-, entries, rfl⟩ := ask_of_definition hd
    exact suits_definitionWaiter
  · rw [coordinator_empty]
    exact orderly_start _ _

theorem contains_run (hs : l.coordinator.Sound) {tag : String}
    (h : l.desk.store.contains tag) (as : List Action) :
    (run l as).desk.store.contains tag := by
  refine Driver.preserved_run (d := driver) (P := fun c => c.desk.store.contains tag) ?_ ?_ hs h as
  · intro N o c p h hp
    rw [Store.contains, hp.installed]
    exact h
  · exact fun h hl => hl.desk.contains h

end Localizer

/-- In every state that a coordinator or a localizer can reach, and in the middle of every step
from there, no tag is both installed and pending, what is installed under a tag is a lexicon of the
tag, and what was once installed stays so. So whoever is told of success finds what it needs: the
base that a resource or a definition extends, or the lexicon that a handle is asked for. -/
theorem installed_exclusively :
    (∀ (service : Service) (client : Client) (before after : List Coordinator.Action)
        (a : Coordinator.Action),
      let c := Coordinator.run (start service client) before
      Exclusive c.desk ∧
        (∀ t, c.desk.store.contains t → (Coordinator.run c after).desk.store.contains t) ∧
        ∃ is, Course (a.base c) (a.deed c) (c.act a) is ∧ Steady (a.base c) (c.act a) is) ∧
    ∀ (s : Setup) (config : Config) (l : Localizer) (before after : List Action) (a : Action),
      create s config = .ok l →
        let m := run l before
        Exclusive m.desk ∧
          (∀ t, m.desk.store.contains t → (run m after).desk.store.contains t) ∧
          ∃ is, Course (a.base m) (a.deed m) (seenStep (m.act a)) is ∧
            Steady (a.base m) (seenStep (m.act a)) is := by
  constructor
  · intro service client before after a c
    have hs : c.Sound :=
      Driver.sound_run (d := Coordinator.driver) (sound_start service client) before
    have h : Orderly c := Coordinator.orderly_run (orderly_start service client) before
    exact ⟨exclusive_of_sound h.sound h.tagged, fun t ht => Coordinator.contains_run hs ht after,
      steady_act h a⟩
  · intro s config l before after a hl m
    have hs : m.coordinator.Sound := Driver.sound_run (d := driver) (sound_create hl) before
    have h : Orderly m.coordinator := orderly_run (orderly_create hl) before
    have hb := orderly_base h a
    refine ⟨exclusive_of_sound h.sound h.tagged, fun t ht => contains_run hs ht after, ?_⟩
    obtain ⟨is, hc⟩ := course_perform hb.sound (a.deed m)
    rw [← act_eq h.sound] at hc
    exact ⟨is, hc, hc.steady hb (fun _ _ => suits_of_ask) (deed_ne_success a)⟩

/-- A lexicon arrives for someone who asked for a handle. -/
theorem installed_exclusively_handle :
    let answer : Delivery := .resource ⟨.map [], none⟩
    let s : Setup := ⟨.list [.text "en"], .none, [], .broken, some fun _ _ => answer, .catalogue⟩
    let config : Config := ⟨⟨.whole 5, rfl⟩, "", [], "*"⟩
    let l := empty s config (Registry.builtins .catalogue) [.text "en"]
    let m := run l [.getHandle "en" none none]
    create s config = .ok l ∧ m.desk.store.isPending "en" ∧
      (run m [.deliver 0 answer]).desk.store.contains "en" ∧ ¬ m.desk.store.contains "en" := by
  intro answer s config l m
  have h : create s config = .ok l := rfl
  have hpending : m.desk.store.isPending "en" := by decide +kernel
  have hcontains : (run m [.deliver 0 answer]).desk.store.contains "en" := by decide +kernel
  have hrun := installed_exclusively.2 s config l [.getHandle "en" none none]
    [.deliver 0 answer] (.expire 0) h
  exact ⟨h, hpending, hcontains, fun hc => hrun.1.apart "en" ⟨hc, hpending⟩⟩

end Localizer

end Phrasebook
