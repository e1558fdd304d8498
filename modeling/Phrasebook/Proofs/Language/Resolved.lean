import Phrasebook.Locale.Catalogue
import Phrasebook.Proofs.Language.Tokens
import Phrasebook.Proofs.Loading.Handles

/-!
# Handles stand for their tags

A handle has the tag that its request was resolved to, and nothing that happens to a localizer
changes how it is configured. So a request for the tag of a handle is resolved to this tag, as long
as the languages on offer are the ones that the handle was asked for among.
-/

namespace Phrasebook.Localizer

open Coordinator

variable {l l' : Localizer} {setup : Setup} {config : Config} {fallback : Fallback}
  {requested tag : String} {onSuccess onError : Option Callback}

section Configured

theorem config_foldl_note (ns : List Notice) (l : Localizer) :
    (ns.foldl note l).config = l.config := by
  induction ns generalizing l with
  | nil => rfl
  | cons n ns ih => exact ih (l.note n)

theorem config_act (l : Localizer) (a : Action) : (l.act a).1.config = l.config := by
  cases a with
  | getHandle requested onSuccess onError =>
    rw [act, faultOf_fst]
    simp only [getHandle]
    split
    · split <;> rfl
    · rfl
  | ensureLoaded tag onSuccess onError =>
    rw [act, faultOf_fst]
    simp only [ensureLoaded]
    split <;> rfl
  | defineLexicon tag data base =>
    rw [act, faultOf_fst]
    simp only [defineLexicon]
    split <;> rfl
  | define => rfl
  | registerExtension name e =>
    rw [act, faultOf_fst]
    simp only [registerExtension]
    split <;> rfl
  | translate h key args domain =>
    rw [act, faultOf_fst]
    simp only [translate]
    split <;> rfl
  | quantify h args =>
    rw [act, faultOf_fst]
    exact config_foldl_note _ l
  | deliver id d =>
    simp only [act]
    split <;> rfl
  | expire id => rfl

theorem config_run (l : Localizer) (as : List Action) : (run l as).config = l.config := by
  induction as generalizing l with
  | nil => rfl
  | cons a as ih => exact (ih (l.act a).1).trans (config_act l a)

theorem config_give {key data : Value} (h : l.give key data = .ok l') : l'.config = l.config := by
  unfold give at h
  split at h
  · split at h
    · obtain rfl := Except.ok.inj h
      rfl
    · contradiction
  · cases hd : (LexiconData.ofValue data).mapError Fault.data with
    | error f =>
      rw [hd] at h
      contradiction
    | ok entries =>
      rw [hd] at h
      obtain rfl := Except.ok.inj h
      rfl

theorem config_foldl_give {rows : List (Value × Value)}
    (h : rows.foldlM (fun l row => l.give row.1 row.2) l = .ok l') : l'.config = l.config := by
  induction rows generalizing l with
  | nil =>
    obtain rfl := Except.ok.inj h
    rfl
  | cons row rows ih =>
    rw [List.foldlM_cons] at h
    obtain ⟨l₁, hg, h⟩ := bind_eq_ok h
    exact (ih h).trans (config_give hg)

theorem config_create (h : create setup config = .ok l) : l.config = config := by
  unfold create at h
  split at h
  · contradiction
  · obtain ⟨registry, -, h⟩ := bind_eq_ok h
    obtain ⟨languages, -, h⟩ := bind_eq_ok h
    split at h
    · contradiction
    · obtain ⟨lexicons, -, h⟩ := bind_eq_ok h
      exact config_foldl_give h

end Configured

theorem resolve_eq_ok_iff :
    l.resolve requested = .ok tag ↔
      Language.resolve requested l.client.tags l.config.fallbackLanguages = some tag := by
  unfold resolve
  cases Language.resolve requested l.client.tags l.config.fallbackLanguages with
  | some t => simp
  | none => simp

theorem tag_of_kept (h : create setup config = .ok l') (hf : setup.factory = .handles fallback)
    (before : List Action) :
    let l := run l' before
    l.resolve requested = .ok tag → ∀ after x,
      (run (l.act (asking requested onSuccess onError)).1 after).client.promises[
        l.client.promises.length]? = some (.kept (.handle x)) → x.tag = tag := by
  intro l hr after x hx
  have hs : l.coordinator.Sound := Driver.sound_run (d := driver) (sound_create h) before
  have he : Equipped setup config l.coordinator :=
    equipped_run (sound_create h) (equipped_create h) before
  have hs₁ : (l.act (asking requested onSuccess onError)).1.coordinator.Sound :=
    Driver.sound_step (d := driver) hs _
  have hkept : ∀ {c : Client} {q log},
      c.answer l.client.requests l.client.promises.length = (some q, log) →
      c.promises[l.client.promises.length]? = some (.kept (.handle x)) →
      q = .kept (.handle x) := fun hanswer hx =>
    Option.some.inj ((congrArg Prod.fst hanswer).symm.trans hx)
  cases hplace : l.desk.store.get? tag with
  | some place =>
    obtain ⟨hreply, hk⟩ := @ready_at_once l requested tag onSuccess onError hs fallback place hr
      (he.factory.trans hf) hplace
    have hanswer := (answer_of_unheld hs₁ hk after).1.trans hreply.answer
    cases hkept hanswer hx
    rfl
  | none =>
    obtain ⟨-, id, -, hcur, htag, hopen, hk⟩ :=
      @queued_at_once l requested tag onSuccess onError hs hr hplace
    by_cases hlater : (run (l.act (asking requested onSuccess onError)).1
        after).desk.store.isCurrent id
    · cases hkept ((answer_of_waits hk hopen after).1 hlater) hx
    · have ho := orderly_act (orderly_run (orderly_create h) before)
        (asking requested onSuccess onError)
      have he₁ := equipped_run hs he [asking requested onSuccess onError]
      obtain ⟨pre, a, post, -, -, -, -, hanswered, hlast⟩ :=
        answered_run ho he₁ hf hk hcur htag hopen after hlater
      cases hanswered with
      | ready _ _ _ _ _ answer =>
        cases hkept (hlast.trans answer) hx
        rfl
      | refused _ _ _ _ answer => cases hkept (hlast.trans answer) hx

end Phrasebook.Localizer

namespace Phrasebook.Language

open Localizer

/-- Every entry of the default chain is a tag, or has no tag in it. For every chain of such entries,
what is chosen for a request is chosen for itself. So a localizer with such a chain resolves the tag
of a handle to this tag, in any state of a run in which the languages are those that were on offer
when the handle was asked for. -/
theorem resolution_stable :
    (∀ entry ∈ defaultChain, Plain entry) ∧
    ∀ chain : List String, (∀ entry ∈ chain, Plain entry) →
      (∀ requested available t, resolve requested available chain = some t →
        resolve t available chain = some t) ∧
      ∀ setup config fallback l₀, create setup config = .ok l₀ →
        setup.factory = .handles fallback → config.fallbackLanguages = chain →
        ∀ before requested tag onSuccess onError after,
          let l := run l₀ before
          let m := run (l.act (asking requested onSuccess onError)).1 after
          l.resolve requested = .ok tag → m.client.languages = l.client.languages →
          m.resolve tag = .ok tag ∧
          ∀ x, m.client.promises[l.client.promises.length]? = some (.kept (.handle x)) →
            m.resolve x.tag = .ok x.tag := by
  refine ⟨plain_defaultChain, fun chain hchain => ⟨fun _ _ _ => resolve_resolved hchain, ?_⟩⟩
  intro setup config fallback l₀ h hf hfallback before requested tag onSuccess onError after l m
    hr hlanguages
  have hl : l.config.fallbackLanguages = chain := by
    rw [config_run, config_create h, hfallback]
  have hm : m.config.fallbackLanguages = chain := by
    rw [config_run, config_act, hl]
  have htags : m.client.tags = l.client.tags := by
    rw [Client.tags, Client.tags, hlanguages]
  have hstays : m.resolve tag = .ok tag := by
    rw [resolve_eq_ok_iff, hl] at hr
    rw [resolve_eq_ok_iff, hm, htags]
    exact resolve_resolved hchain hr
  refine ⟨hstays, fun x hx => ?_⟩
  rw [tag_of_kept h hf before hr after x hx]
  exact hstays

/-- A request that no language serves falls back to a chain entry without words. -/
theorem resolution_stable_fallback :
    let answer : Delivery := .resource ⟨.map [], none⟩
    let s : Setup :=
      ⟨.list [.text "en", .text "*"], .none, [], .handles .marker, some fun _ _ => answer,
        .catalogue⟩
    let config : Config := ⟨⟨.whole 5, rfl⟩, "", defaultChain, "*"⟩
    let l := Localizer.empty s config (Registry.builtins .catalogue) [.text "en", .text "*"]
    let m := run (l.act (asking "de-DE" none none)).1 [.deliver 0 answer]
    create s config = .ok l ∧ (∀ entry ∈ defaultChain, Plain entry) ∧
      l.resolve "de-DE" = .ok "*" ∧ m.client.languages = l.client.languages ∧
      ∃ x, m.client.promises[l.client.promises.length]? = some (.kept (.handle x)) ∧
        m.resolve x.tag = .ok x.tag := by
  intro answer s config l m
  have h : create s config = .ok l := rfl
  have hr : l.resolve "de-DE" = .ok "*" := resolve_eq_ok_iff.mpr (by decide +kernel)
  obtain ⟨hplain, hstable⟩ := resolution_stable
  obtain ⟨-, hruns⟩ := hstable defaultChain hplain
  have hlanguages : m.client.languages = l.client.languages := rfl
  obtain ⟨-, hhandle⟩ := hruns s config .marker l h rfl rfl [] "de-DE" "*" none none
    [.deliver 0 answer] hr hlanguages
  have hkept : m.client.promises[l.client.promises.length]? =
      some (.kept (.handle ⟨0, "*", "*", .marker⟩)) := rfl
  exact ⟨h, hplain, hr, hlanguages, _, hkept, hhandle _ hkept⟩

end Phrasebook.Language
