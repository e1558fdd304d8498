import Mathlib.Data.List.Induction
import Phrasebook.Locale.Catalogue
import Phrasebook.Proofs.Loading.Definition
import Phrasebook.Proofs.Loading.Handles

/-!
# Handles are stable

Lexicons are put on a shelf and stay there: more may be compiled of them, but their content never
changes. A tag goes over to a new lexicon when it is installed, and a handle keeps the lexicon that
it was made for. So what a handle renders depends on nothing that happens after it was made, apart
from new extensions, and a handle that is asked for after a redefinition reads the replacement.
-/

namespace Phrasebook

structure Newest (tags : List String) (t : String) (place : Nat) : Prop where
  here : tags[place]? = some t
  last : ∀ q, tags[q]? = some t → q ≤ place

section Newest

variable {tags : List String} {t u : String} {place q : Nat}

theorem getElem?_snoc :
    (tags ++ [u])[q]? = some t ↔ tags[q]? = some t ∨ q = tags.length ∧ u = t := by
  rw [List.getElem?_append]
  split
  · rename_i hq
    exact ⟨Or.inl, fun h => h.resolve_right fun hlast => Nat.ne_of_lt hq hlast.1⟩
  · rename_i hq
    have hnone : tags[q]? = none := List.getElem?_eq_none (Nat.le_of_not_lt hq)
    rw [List.getElem?_singleton, hnone]
    split <;> simp <;> omega

theorem newest_snoc :
    Newest (tags ++ [u]) t place ↔ if u = t then place = tags.length else Newest tags t place := by
  split
  · rename_i hu
    have hlt : ∀ {q}, tags[q]? = some t → q < tags.length := fun h =>
      (List.getElem?_eq_some_iff.mp h).1
    constructor
    · rintro ⟨here, last⟩
      have hle := last tags.length (getElem?_snoc.mpr (Or.inr ⟨rfl, hu⟩))
      rcases getElem?_snoc.mp here with h | ⟨h, -⟩
      · exact absurd (hlt h) (Nat.not_lt.mpr hle)
      · exact h
    · rintro rfl
      refine ⟨getElem?_snoc.mpr (Or.inr ⟨rfl, hu⟩), fun q hq => ?_⟩
      rcases getElem?_snoc.mp hq with h | ⟨h, -⟩
      · exact Nat.le_of_lt (hlt h)
      · exact Nat.le_of_eq h
  · rename_i hu
    have hsame : ∀ q, (tags ++ [u])[q]? = some t ↔ tags[q]? = some t := fun q =>
      getElem?_snoc.trans (or_iff_left fun h => hu h.2)
    constructor
    · exact fun h => ⟨(hsame _).mp h.here, fun q hq => h.last q ((hsame q).mpr hq)⟩
    · exact fun h => ⟨(hsame _).mpr h.here, fun q hq => h.last q ((hsame q).mp hq)⟩

theorem exists_newest (h : tags[q]? = some t) : ∃ place, Newest tags t place ∧ q ≤ place := by
  induction tags using List.reverseRecOn with
  | nil => contradiction
  | append_singleton tags u ih =>
    by_cases hu : u = t
    · have hnewest : Newest (tags ++ [u]) t tags.length := newest_snoc.mpr (by rw [if_pos hu])
      exact ⟨_, hnewest, hnewest.last q h⟩
    · have hold := (getElem?_snoc.mp h).resolve_right fun hlast => hu hlast.2
      obtain ⟨place, hnewest, hle⟩ := ih hold
      exact ⟨place, newest_snoc.mpr (by rwa [if_neg hu]), hle⟩

end Newest

namespace Coordinator

def tags (c : Coordinator) : List String := c.desk.shelf.map Lexicon.tag

/-- What is installed under a tag is the newest lexicon of the tag, and a handle that was given out
has a lexicon of its tag. -/
structure Filed (c : Coordinator) : Prop where
  newest : ∀ t place, c.desk.store.get? t = some place ↔ Newest c.tags t place
  housed : ∀ x, c.client.Gave x → c.tags[x.lexicon]? = some x.tag

section Filed

variable {c d : Coordinator}

theorem Filed.gives (h : Filed c) (hg : Gives c d) {x : Handle} (hx : d.client.Gave x) :
    c.tags[x.lexicon]? = some x.tag := by
  rcases hg x hx with hx | hx
  · exact h.housed x hx
  · exact ((h.newest _ _).mp hx).here

theorem lasting_filed : Lasting Filed where
  keeps := by
    intro c d hs h hshelf hinstalled hg
    have htags : d.tags = c.tags := hshelf
    refine ⟨fun t place => ?_, fun x hx => htags ▸ h.gives hg hx⟩
    rw [htags, Store.get?, hinstalled]
    exact h.newest t place
  shelves := by
    intro c d l hs h hl hg
    have htags : d.tags = c.tags ++ [l.tag] := by
      rw [tags, hl.1, List.map_append]
      rfl
    have hlength : c.tags.length = c.desk.shelf.length := List.length_map _
    refine ⟨fun t place => ?_, fun x hx => ?_⟩
    · rw [htags, newest_snoc, hl.get?, hlength]
      split
      · rw [Option.some.injEq, eq_comm]
      · exact h.newest t place
    · have hx := h.gives hg hx
      rw [htags, List.getElem?_append_left (List.getElem?_eq_some_iff.mp hx).1]
      exact hx

theorem Filed.installed_of_tag (h : Filed c) {t : String} {q : Nat} (hq : c.tags[q]? = some t) :
    ∃ place, c.desk.store.get? t = some place ∧ q ≤ place := by
  obtain ⟨place, hnewest, hle⟩ := exists_newest hq
  exact ⟨place, (h.newest t place).mpr hnewest, hle⟩

theorem Filed.installed_new (h : Filed c) (hd : Filed d) (htags : c.tags <+: d.tags) {t : String}
    (hne : d.desk.store.get? t ≠ c.desk.store.get? t) :
    ∃ place, d.desk.store.get? t = some place ∧ c.desk.shelf.length ≤ place ∧
      d.tags[place]? = some t := by
  obtain ⟨new, htags⟩ := htags
  have hgrown : ∀ {q}, q < c.tags.length → d.tags[q]? = c.tags[q]? := fun hq =>
    htags ▸ List.getElem?_append_left hq
  have hkept : ∀ {q}, c.tags[q]? = some t → d.tags[q]? = some t := fun hq =>
    (hgrown (List.getElem?_eq_some_iff.mp hq).1).trans hq
  obtain ⟨place, hplace⟩ : ∃ place, d.desk.store.get? t = some place := by
    cases hget : d.desk.store.get? t with
    | some place => exact ⟨place, rfl⟩
    | none =>
      obtain ⟨q, hq⟩ := Option.ne_none_iff_exists'.mp (hget ▸ hne.symm)
      obtain ⟨place, hplace, -⟩ := hd.installed_of_tag (hkept ((h.newest t q).mp hq).here)
      exact ⟨place, hget ▸ hplace⟩
  have hnew := (hd.newest t place).mp hplace
  refine ⟨place, hplace, Nat.le_of_not_lt fun hlt => hne ?_, hnew.here⟩
  -- an old place that is the last one now was the last one before
  have hold := hgrown (List.length_map Lexicon.tag ▸ hlt)
  rw [hplace]
  exact ((h.newest t place).mpr ⟨hold ▸ hnew.here, fun q hq => hnew.last q (hkept hq)⟩).symm

end Filed

end Coordinator

/-- Every lexicon is still in its place, and more may be compiled of it. -/
def Retains (r : Registry Extension) (s s' : List Lexicon) : Prop :=
  ∀ place : Nat, ∀ x ∈ s[place]?, ∃ y ∈ s'[place]?, x.Compiles r y

section Retains

variable {r : Registry Extension} {s s' s'' : List Lexicon}

theorem Retains.trans (h : Retains r s s') (j : Retains r s' s'') : Retains r s s'' := by
  intro place x hx
  obtain ⟨y, hy, hxy⟩ := h place x hx
  obtain ⟨z, hz, hyz⟩ := j place y hy
  exact ⟨z, hz, hxy.trans hyz⟩

theorem retains_of_grown (h : s <+: s') : Retains r s s' := by
  obtain ⟨new, rfl⟩ := h
  intro place x hx
  refine ⟨x, ?_, .refl r x⟩
  rw [List.getElem?_append_left (List.getElem?_eq_some_iff.mp hx).1]
  exact hx

theorem retains_set {place : Nat} {x y : Lexicon} (hx : s[place]? = some x)
    (h : x.Compiles r y) : Retains r s (s.set place y) := by
  intro q z hz
  by_cases hq : place = q
  · subst hq
    obtain rfl := Option.some.inj (hx.symm.trans hz)
    exact ⟨y, List.getElem?_set_self (List.getElem?_eq_some_iff.mp hx).1, h⟩
  · exact ⟨z, (List.getElem?_set_ne hq).trans hz, .refl r z⟩

theorem Retains.contents (h : Retains r s s') :
    (s.map fun x => (x.tag, x.source)) <+: s'.map fun x => (x.tag, x.source) := by
  rw [List.prefix_iff_getElem?]
  intro place hplace
  rw [List.length_map] at hplace
  obtain ⟨y, hy, hxy⟩ := h place _ (List.getElem?_eq_getElem hplace)
  rw [List.getElem?_map, show s'[place]? = some y from hy, List.getElem_map, Option.map_some,
    hxy.tag, hxy.source]

end Retains

namespace Localizer

open Coordinator

def contents (l : Localizer) : List (String × LexiconData) :=
  l.desk.shelf.map fun x => (x.tag, x.source)

section Runs

variable {l m : Localizer}

theorem translate_of_retains {r : Registry Extension} {s : List Lexicon} {h : Handle} {x : Lexicon}
    (hx : s[h.lexicon]? = some x) (hs : Retains r s m.desk.shelf) (hr : m.registry = r)
    (key : String) (args : List Value) (domain : Option String) :
    (m.translate h key args domain).2 = (h.translate r x key args domain).1.result := by
  obtain ⟨y, hy, hxy⟩ := hs h.lexicon x hx
  have hy' : m.lexiconOf? h = some y := hy
  rw [← h.translate_of_compiles hxy, ← hr]
  simp only [translate, hy']

theorem retains_base (l : Localizer) (a : Action) :
    Retains l.registry l.desk.shelf (a.base l).desk.shelf := by
  rcases alike_base l a with ⟨x, key, args, domain, rfl⟩ | halike
  · simp only [Action.base, translate]
    cases hx : l.lexiconOf? x with
    | none => exact retains_of_grown List.prefix_rfl
    | some y => exact retains_set hx (x.compiles_translate l.registry y key args domain)
  · exact retains_of_grown (halike.shelf ▸ List.prefix_rfl)

theorem retains_act (hs : l.coordinator.desk.Sound) (a : Action) :
    Retains l.registry l.desk.shelf (l.act a).1.desk.shelf := by
  have heq : (l.act a).1.coordinator = ((a.base l).perform (a.deed l)).1 :=
    congrArg Prod.fst (act_eq hs a)
  have hperform : (a.base l).desk.shelf <+: (l.act a).1.desk.shelf := by
    change (a.base l).desk.shelf <+: (l.act a).1.coordinator.desk.shelf
    rw [heq]
    rcases perform_cases (sound_base hs a) (a.deed l) with hl | ⟨tag, w, id, d, -, hq, hstep⟩
    · exact hl.desk.shelf
    · rw [hstep]
      exact hq.shelf ▸ List.prefix_rfl
  exact (retains_base l a).trans (retains_of_grown hperform)

theorem registry_foldl_note (ns : List Notice) (l : Localizer) :
    (ns.foldl note l).registry = l.registry := by
  induction ns generalizing l with
  | nil => rfl
  | cons n ns ih => exact ih (l.note n)

theorem registry_act {a : Action} (ha : ∀ name e, a ≠ .registerExtension name e) :
    (l.act a).1.registry = l.registry := by
  cases a with
  | getHandle requested onSuccess onError =>
    rw [act, faultOf_fst]
    simp only [getHandle]
    split
    · split <;> rfl
    · rfl
  | ensureLoaded tag onSuccess onError =>
    rw [act, faultOf_fst]
    simp only [ensureLoaded]
    split <;> rfl
  | defineLexicon tag data base =>
    rw [act, faultOf_fst]
    simp only [defineLexicon]
    split <;> rfl
  | define => rfl
  | registerExtension name e => exact absurd rfl (ha name e)
  | translate h key args domain =>
    rw [act, faultOf_fst]
    simp only [translate]
    split <;> rfl
  | quantify h args =>
    rw [act, faultOf_fst]
    exact registry_foldl_note _ l
  | deliver id d =>
    simp only [act]
    split <;> rfl
  | expire id => rfl

theorem retains_run (hs : l.coordinator.Sound) {as : List Action}
    (ha : ∀ a ∈ as, ∀ name e, a ≠ .registerExtension name e) :
    (run l as).registry = l.registry ∧ Retains l.registry l.desk.shelf (run l as).desk.shelf := by
  induction as generalizing l with
  | nil => exact ⟨rfl, retains_of_grown List.prefix_rfl⟩
  | cons a as ih =>
    have hregistry := registry_act (l := l) (ha a List.mem_cons_self)
    obtain ⟨hr, hretains⟩ := ih (Driver.sound_step (d := driver) hs a) fun b hb =>
      ha b (List.mem_cons_of_mem a hb)
    have hr' : (run l (a :: as)).registry = (l.act a).1.registry := hr
    have hretains' : Retains (l.act a).1.registry (l.act a).1.desk.shelf
        (run l (a :: as)).desk.shelf := hretains
    rw [hregistry] at hr' hretains'
    exact ⟨hr', (retains_act hs.desk a).trans hretains'⟩

theorem contents_run (hs : l.coordinator.Sound) (as : List Action) :
    l.contents <+: (run l as).contents := by
  induction as generalizing l with
  | nil => exact List.prefix_rfl
  | cons a as ih =>
    exact (retains_act hs.desk a).contents.trans (ih (Driver.sound_step (d := driver) hs a))

end Runs

/-- What a definition comes to: a lexicon of the entries alone, or one on top of a base that is
there. -/
inductive Redefines (d : Desk Success Failure) (tag : String) (entries : LexiconData) :
    Option String → Lexicon → Prop where
  | plain : Redefines d tag entries none (.ofData tag entries)
  | based {b y} (hb : b ≠ tag) (hy : d.lexicon? b = some y) :
      Redefines d tag entries (some b) (y.derive tag entries)

section Redefine

variable {l : Localizer} {tag : String} {data : Value} {entries : LexiconData}
  {base : Option String} {x : Lexicon}

theorem Redefines.tag_eq {d : Desk Success Failure} (h : Redefines d tag entries base x) :
    x.tag = tag := by
  cases h <;> rfl

theorem define_at_once (hs : l.coordinator.desk.Sound)
    (hd : LexiconData.ofValue data = .ok entries) (hx : Redefines l.desk tag entries base x) :
    (l.act (.defineLexicon tag data base)).1.coordinator =
      (Coordinator.install announce (promised l.coordinator) x
        (some (.promise l.client.promises.length tag))).1 := by
  have hcall : (l.act (.defineLexicon tag data base)).1.coordinator = _ :=
    congrArg Prod.fst (call_eq l tag data base)
  rw [hcall]
  cases hx with
  | plain => rw [define_plain hd]
  | @based b y hb hy =>
    rw [define_based hd hb]
    rcases ensure_cases (c := promised l.coordinator) (readies_promised hs).sound b
      (promiseWaiter l.client.promises.length tag b entries) with ⟨-, heq⟩ | ⟨_, _, -, hq⟩
    · have hy' : (promised l.coordinator).desk.lexicon? b = some y := hy
      exact congrArg Prod.fst (heq.trans (take_definition hy' tag entries _))
    · obtain ⟨place, hplace, -⟩ := Option.bind_eq_some_iff.mp hy
      have hcontains : l.desk.store.contains b := Option.isSome_iff_exists.mpr ⟨place, hplace⟩
      exact absurd hcontains hq.absent

theorem redefined (hs : l.coordinator.desk.Sound) (hd : LexiconData.ofValue data = .ok entries)
    (hx : Redefines l.desk tag entries base x) (ht : l.desk.store.contains tag) :
    let m := (l.act (.defineLexicon tag data base)).1
    m.desk.shelf = l.desk.shelf ++ [x] ∧ m.desk.store.get? tag = some l.desk.shelf.length := by
  intro m
  have hpending : (promised l.coordinator).desk.store.pending.get? x.tag = none :=
    hx.tag_eq ▸ hs.store.apart ht
  obtain ⟨d, hinstall, hputs⟩ := install_vacant (readies_promised hs).sound hpending
  have hm : m.desk = d := by
    change m.coordinator.desk = d
    rw [define_at_once hs hd hx]
    simp only [Coordinator.install, hinstall]
    exact (report_serves _ _).1
  rw [hm]
  exact ⟨hputs.shelf, hx.tag_eq ▸ hputs.place⟩

theorem take_of_definition {c : Coordinator} {t : Turn} {r : Option Reporter}
    (h : t.definition? c = some (x, r)) :
    take announce c t = Coordinator.install announce c x r := by
  cases t with
  | install y q =>
    cases h
    rfl
  | success w =>
    cases w with
    | extendDefinition tag base entries q =>
      obtain ⟨y, hy, heq⟩ := Option.map_eq_some_iff.mp h
      cases heq
      exact take_definition hy tag entries _
    | _ => contradiction
  | _ => contradiction

/-- A definition that is completed in a step is installed after it, or a newer one is. -/
theorem defined_in_turn {a : Action} {is : List Incident} {holder : Option Nat} {c₁ : Coordinator}
    {t : Turn} {raised : Option Fault} {r : Option Reporter} (hs : l.coordinator.Sound)
    (hf : Filed l.coordinator) (hc : Course (a.base l) (a.deed l) (seenStep (l.act a)) is)
    (hm : .turn holder c₁ t raised ∈ is) (ht : t.definition? c₁ = some (x, r)) :
    let m := (l.act a).1
    l.desk.shelf.length ≤ c₁.desk.shelf.length ∧ m.desk.shelf[c₁.desk.shelf.length]? = some x ∧
      ∃ place, m.desk.store.get? x.tag = some place ∧ c₁.desk.shelf.length ≤ place := by
  intro m
  have hfm : Filed m.coordinator := lasting_act lasting_filed hs hf a
  obtain ⟨owner, b, ts, hl, hscene, -⟩ := hc.scene (sound_base hs.desk a) hm
  have hbefore : l.desk.shelf.length ≤ c₁.desk.shelf.length := by
    have hbase := (retains_base l a).contents.length_le
    rw [List.length_map, List.length_map] at hbase
    exact Nat.le_trans hbase (hl.trans hscene.before).desk.shelf.length_le
  have hput : (take announce c₁ t).1.desk.shelf[c₁.desk.shelf.length]? = some x := by
    rw [take_of_definition ht]
    exact shelved_install hscene.sound x r
  have hshelf : m.desk.shelf[c₁.desk.shelf.length]? = some x :=
    Desk.getElem?_of_later hscene.after.desk hput
  refine ⟨hbefore, hshelf, hfm.installed_of_tag ?_⟩
  rw [tags, List.getElem?_map, show m.coordinator.desk.shelf[_]? = _ from hshelf]
  rfl

theorem renders_replacement {m : Localizer} (hs : m.coordinator.Sound) {y : Handle}
    (hx : m.desk.shelf[y.lexicon]? = some x) {between : List Action}
    (hb : ∀ a ∈ between, ∀ name e, a ≠ .registerExtension name e) (requested : String)
    (onSuccess onError : Option Callback) (key : String) (args : List Value)
    (domain : Option String) :
    (((run m between).act (asking requested onSuccess onError)).1.translate y key args domain).2 =
      (y.translate m.registry x key args domain).1.result := by
  have hrun : run m (between ++ [asking requested onSuccess onError]) =
      ((run m between).act (asking requested onSuccess onError)).1 := List.foldl_append
  rw [← hrun]
  have hboth : ∀ a ∈ between ++ [asking requested onSuccess onError], ∀ name e,
      a ≠ .registerExtension name e := by
    intro a ha
    rcases List.mem_append.mp ha with ha | ha
    · exact hb a ha
    · rw [List.mem_singleton.mp ha]
      nofun
  obtain ⟨hregistry, hretains⟩ := retains_run hs hboth
  exact translate_of_retains hx hretains hregistry key args domain

theorem asked_installed {setup : Setup} {config : Config} {fallback : Fallback} {place : Nat}
    {requested : String} (hs : l.coordinator.Sound) (he : Equipped setup config l.coordinator)
    (hf : setup.factory = .handles fallback) (hr : l.resolve requested = .ok tag)
    (ht : l.desk.store.get? tag = some place) (onSuccess onError : Option Callback) :
    (l.act (asking requested onSuccess onError)).1.client.promises[l.client.promises.length]? =
      some (.kept (.handle ⟨place, tag, config.defaultDomain, fallback⟩)) := by
  rw [← he.defaultDomain]
  obtain ⟨hreply, -⟩ := ready_at_once hs hr (he.factory.trans hf) ht
  exact congrArg Prod.fst hreply.answer

end Redefine

theorem filed_empty (s : Setup) (config : Config) (registry : Registry Extension)
    (languages : List Value) : Filed (empty s config registry languages).coordinator where
  newest t place := ⟨nofun, fun h => absurd h.here nofun⟩
  housed x hx := by
    rcases hx with hx | ⟨e, he, -⟩
    · exact absurd hx List.not_mem_nil
    · exact absurd he List.not_mem_nil

theorem tags_run {l : Localizer} (hs : l.coordinator.Sound) (as : List Action) :
    l.coordinator.tags <+: (run l as).coordinator.tags := by
  have htags : ∀ m : Localizer, m.contents.map Prod.fst = m.coordinator.tags := fun m =>
    List.map_map
  rw [← htags, ← htags]
  exact (contents_run hs as).map Prod.fst

/-- A handle renders in any later state of a run as it did when it was made, unless extensions are
registered. This is because a lexicon that was installed keeps its tag, its domains, its keys and
its patterns, whatever is done. What is installed under a tag is the newest lexicon of the tag, so a
step changes it only by installing one. A definition that is completed is installed, unless a newer
one of the tag is; and a handle that is asked for after a redefinition reads the replacement. -/
theorem handles_stable {setup : Setup} {config : Config} {l₀ : Localizer}
    (h : create setup config = .ok l₀) (before : List Action) :
    let l := run l₀ before
    (∀ x, l.client.Gave x →
      (∃ y, l.desk.shelf[x.lexicon]? = some y ∧ y.tag = x.tag) ∧
      ∀ after : List Action, (∀ a ∈ after, ∀ name e, a ≠ .registerExtension name e) →
        ∀ key args domain, ((run l after).translate x key args domain).2 =
          (l.translate x key args domain).2) ∧
    (∀ t place, l.desk.store.get? t = some place ↔
      Newest (l.desk.shelf.map Lexicon.tag) t place) ∧
    (∀ after, l.contents <+: (run l after).contents ∧
      ∀ t, (run l after).desk.store.get? t ≠ l.desk.store.get? t → ∃ place y,
        (run l after).desk.store.get? t = some place ∧ l.desk.shelf.length ≤ place ∧
        (run l after).desk.shelf[place]? = some y ∧ y.tag = t) ∧
    (∀ a, ∃ is, Course (a.base l) (a.deed l) (seenStep (l.act a)) is ∧
      ∀ holder c₁ t raised x r, .turn holder c₁ t raised ∈ is → t.definition? c₁ = some (x, r) →
        l.desk.shelf.length ≤ c₁.desk.shelf.length ∧
        (l.act a).1.desk.shelf[c₁.desk.shelf.length]? = some x ∧
        ∃ place, (l.act a).1.desk.store.get? x.tag = some place ∧
          c₁.desk.shelf.length ≤ place) ∧
    ∀ tag data entries base x, LexiconData.ofValue data = .ok entries →
      l.desk.store.contains tag → Redefines l.desk tag entries base x →
      let m := (l.act (.defineLexicon tag data base)).1
      m.desk.shelf = l.desk.shelf ++ [x] ∧ m.desk.store.get? tag = some l.desk.shelf.length ∧
      ∀ between requested onSuccess onError fallback, setup.factory = .handles fallback →
        let n := run m between
        n.desk.store.get? tag = some l.desk.shelf.length → n.resolve requested = .ok tag →
        let asked := (n.act (asking requested onSuccess onError)).1
        let y : Handle := ⟨l.desk.shelf.length, tag, config.defaultDomain, fallback⟩
        asked.client.promises[n.client.promises.length]? = some (.kept (.handle y)) ∧
        ((∀ a ∈ between, ∀ name e, a ≠ .registerExtension name e) → ∀ key args domain,
          (asked.translate y key args domain).2 =
            (y.translate l.registry x key args domain).1.result) := by
  intro l
  have hs₀ : l₀.coordinator.Sound := sound_create h
  have hs : l.coordinator.Sound := Driver.sound_run (d := driver) hs₀ before
  have hf₀ : Filed l₀.coordinator := lasting_create lasting_filed (filed_empty setup config) h
  have hf : Filed l.coordinator := lasting_run lasting_filed hs₀ hf₀ before
  refine ⟨fun x hx => ?_, hf.newest, fun after => ⟨contents_run hs after, fun t hne => ?_⟩,
    fun a => ?_, ?_⟩
  · have htag := hf.housed x hx
    rw [tags, List.getElem?_map] at htag
    obtain ⟨y, hy, hyx⟩ := Option.map_eq_some_iff.mp htag
    refine ⟨⟨y, hy, hyx⟩, fun after hafter key args domain => ?_⟩
    obtain ⟨hregistry, hretains⟩ := retains_run hs hafter
    rw [translate_of_retains hy hretains hregistry,
      translate_of_retains hy (retains_of_grown List.prefix_rfl) rfl]
  · have hfa := lasting_run lasting_filed hs hf after
    obtain ⟨place, hplace, hle, htag⟩ := hf.installed_new hfa (tags_run hs after) hne
    rw [tags, List.getElem?_map] at htag
    obtain ⟨y, hy, hyt⟩ := Option.map_eq_some_iff.mp htag
    exact ⟨place, y, hplace, hle, hy, hyt⟩
  · obtain ⟨is, hc⟩ := course_act (a := a) hs.desk (sound_base hs.desk a)
    exact ⟨is, hc, fun holder c₁ t raised x r hm ht => defined_in_turn hs hf hc hm ht⟩
  · intro tag data entries base x hd ht hx m
    obtain ⟨hshelf, hget⟩ := redefined hs.desk hd hx ht
    refine ⟨hshelf, hget, ?_⟩
    intro between requested onSuccess onError fallback hfactory n hn hr asked y
    have hsm : m.coordinator.Sound := Driver.sound_step (d := driver) hs _
    have hsn : n.coordinator.Sound := Driver.sound_run (d := driver) hsm between
    have he : Equipped setup config l.coordinator := equipped_run hs₀ (equipped_create h) before
    have hen : Equipped setup config n.coordinator :=
      equipped_run hs he (.defineLexicon tag data base :: between)
    refine ⟨asked_installed hsn hen hfactory hr hn onSuccess onError, ?_⟩
    intro hbetween key args domain
    have hx' : m.desk.shelf[y.lexicon]? = some x := by
      change m.desk.shelf[l.desk.shelf.length]? = some x
      rw [hshelf, List.getElem?_concat_length]
    have hregistry : m.registry = l.registry := registry_act nofun
    rw [renders_replacement hsm hx' hbetween, hregistry]

/-- A lexicon is defined twice, then a handle is asked for, and then the lexicon is defined again:
the handle reads the second definition before and after. -/
theorem handles_stable_redefined :
    let data (text : String) : Value := .map [(.text "*", .map [(.text "k", .text text)])]
    let define (text : String) : Action := .defineLexicon "en" (data text) none
    let s : Setup := ⟨.list [.text "en"], .none, [], .handles .marker, none, .catalogue⟩
    let config : Config := ⟨⟨.whole 5, rfl⟩, "", [], "*"⟩
    let l₀ := empty s config (Registry.builtins .catalogue) [.text "en"]
    let y : Handle := ⟨1, "en", "*", .marker⟩
    let asked := run l₀ [define "old", define "new", asking "en" none none]
    create s config = .ok l₀ ∧ asked.client.promises[2]? = some (.kept (.handle y)) ∧
      (asked.translate y "k" [] none).2.toOption = some "new" ∧
      ((run asked [define "newer"]).translate y "k" [] none).2.toOption = some "new" := by
  intro data define s config l₀ y asked
  have h : create s config = .ok l₀ := rfl
  let l := run l₀ [define "old"]
  let m := (l.act (define "new")).1
  have ht : l.desk.store.contains "en" := by decide +kernel
  have hn : m.desk.store.get? "en" = some 1 := by decide +kernel
  have hresolve : Language.resolve "en" m.client.tags m.config.fallbackLanguages = some "en" := by
    decide +kernel
  have hr : m.resolve "en" = .ok "en" := by
    simp only [resolve, hresolve]
  obtain ⟨-, -, hasked⟩ := (handles_stable h [define "old"]).2.2.2.2 "en" (data "new") _
    none _ rfl ht .plain
  obtain ⟨hkept, hrender⟩ := hasked [] "en" none none .marker rfl hn hr
  have hnew : (asked.translate y "k" [] none).2.toOption = some "new" :=
    (congrArg Except.toOption (hrender (by simp) "k" [] none)).trans (by decide +kernel)
  have hstable := handles_stable h [define "old", define "new", asking "en" none none]
  have hlater := (hstable.1 y (Or.inl (List.mem_of_getElem? hkept))).2 [define "newer"]
    (fun a ha => by simp [List.mem_singleton.mp ha, define]) "k" [] none
  exact ⟨h, hkept, hnew, (congrArg Except.toOption hlater).trans hnew⟩

end Localizer

end Phrasebook
