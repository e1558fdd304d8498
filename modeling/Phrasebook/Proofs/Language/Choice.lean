import Phrasebook.Localizer

/-!
# Choosing a language

The tags that serve a request stand in one order that does not depend on what is available: the tags
in the request as written, then what stands before their hyphens, tag by tag and the longest first,
then the fallback chain. The first of them that is available is chosen, so the choice stays when
other tags go, and a choice remains when more tags come.
-/

namespace Phrasebook

namespace Language

variable {requested s t tag : String} {available fewer chain tags : List String}
  {cs cut : List Char}

def Shortens (s tag : String) : Prop := ∃ rest, tag = s ++ "-" ++ rest

inductive Chosen (tags available chain : List String) (t : String) : Prop where
  | written {before after : List String} (here : tags = before ++ t :: after)
      (offered : t ∈ available) (first : ∀ c ∈ before, c ∉ available)
  | shortened {before after : List String} {tag : String} (here : tags = before ++ tag :: after)
      (cut : Shortens t tag) (offered : t ∈ available) (unwritten : ∀ c ∈ tags, c ∉ available)
      (first : ∀ c ∈ before, ∀ s, Shortens s c → s ∉ available)
      (longest : ∀ s, Shortens s tag → t.length < s.length → s ∉ available)
  | fallback {before after : List String} (here : chain = before ++ t :: after)
      (offered : t ∈ available) (unwritten : ∀ c ∈ tags, c ∉ available)
      (uncut : ∀ c ∈ tags, ∀ s, Shortens s c → s ∉ available)
      (first : ∀ c ∈ before, c ∉ available)

theorem mem_shorterTags : cut ∈ shorterTags cs ↔ ∃ rest, cs = cut ++ '-' :: rest := by
  induction cs generalizing cut with
  | nil => simp [shorterTags]
  | cons c cs ih =>
    rw [shorterTags, List.mem_append, List.mem_map]
    constructor
    · rintro (⟨shorter, hmem, rfl⟩ | hmem)
      · obtain ⟨rest, rfl⟩ := ih.mp hmem
        exact ⟨rest, rfl⟩
      · split at hmem
        · rename_i hc
          rw [List.mem_singleton.mp hmem, hc]
          exact ⟨cs, rfl⟩
        · exact absurd hmem List.not_mem_nil
    · rintro ⟨rest, h⟩
      cases cut with
      | nil =>
        obtain ⟨rfl, rfl⟩ := List.cons.inj h
        exact Or.inr (List.mem_singleton.mpr rfl)
      | cons d shorter =>
        obtain ⟨rfl, rfl⟩ := List.cons.inj h
        exact Or.inl ⟨shorter, ih.mpr ⟨rest, rfl⟩, rfl⟩

theorem mem_truncations : s ∈ truncations tag ↔ Shortens s tag := by
  rw [truncations, List.mem_map]
  constructor
  · rintro ⟨cut, hmem, rfl⟩
    obtain ⟨rest, h⟩ := mem_shorterTags.mp hmem
    refine ⟨String.ofList rest, String.toList_inj.mp ?_⟩
    simp [h]
  · rintro ⟨rest, rfl⟩
    exact ⟨s.toList, mem_shorterTags.mpr ⟨rest.toList, by simp⟩, String.ofList_toList⟩

theorem pairwise_shorterTags (cs : List Char) :
    (shorterTags cs).Pairwise fun a b => b.length < a.length := by
  induction cs with
  | nil => exact .nil
  | cons c cs ih =>
    rw [shorterTags, List.pairwise_append]
    refine ⟨?_, ?_, ?_⟩
    · exact List.pairwise_map.mpr (ih.imp Nat.succ_lt_succ)
    · split
      · exact List.pairwise_singleton _ _
      · exact .nil
    · intro a ha b hb
      obtain ⟨a, -, rfl⟩ := List.mem_map.mp ha
      split at hb
      · rw [List.mem_singleton.mp hb]
        exact Nat.succ_pos _
      · exact absurd hb List.not_mem_nil

theorem pairwise_truncations (tag : String) :
    (truncations tag).Pairwise fun a b => b.length < a.length := by
  rw [truncations, List.pairwise_map]
  simpa using pairwise_shorterTags tag.toList

/-- The first available part of a tag is the longest. -/
theorem find?_truncations :
    (truncations tag).find? (· ∈ available) = some t ↔
      Shortens t tag ∧ t ∈ available ∧
        ∀ s, Shortens s tag → t.length < s.length → s ∉ available := by
  rw [List.find?_eq_some_iff_append]
  have hsorted := pairwise_truncations tag
  constructor
  · rintro ⟨hoffered, before, after, hsplit, hfirst⟩
    have hmem : t ∈ truncations tag := hsplit ▸ List.mem_append_cons_self
    refine ⟨mem_truncations.mp hmem, of_decide_eq_true hoffered, fun s hs hlt => ?_⟩
    have hs' := mem_truncations.mpr hs
    rw [hsplit] at hs' hsorted
    rcases List.mem_append.mp hs' with hs' | hs'
    · simpa using hfirst s hs'
    · -- what stands behind `t` is shorter
      have hle : s.length ≤ t.length := by
        rcases List.mem_cons.mp hs' with rfl | hs'
        · exact Nat.le_refl _
        · exact Nat.le_of_lt (List.rel_of_pairwise_cons (List.pairwise_append.mp hsorted).2.1 hs')
      omega
  · rintro ⟨hcut, hoffered, hlongest⟩
    obtain ⟨before, after, hsplit⟩ := List.append_of_mem (mem_truncations.mpr hcut)
    refine ⟨decide_eq_true hoffered, before, after, hsplit, fun s hs => ?_⟩
    have hmem : s ∈ truncations tag := hsplit ▸ List.mem_append_left _ hs
    rw [hsplit] at hsorted
    have hlt := (List.pairwise_append.mp hsorted).2.2 s hs t List.mem_cons_self
    simpa using hlongest s (mem_truncations.mp hmem) hlt

theorem find?_mem_eq_some :
    tags.find? (· ∈ available) = some t ↔ t ∈ available ∧ ∃ before after,
      tags = before ++ t :: after ∧ ∀ c ∈ before, c ∉ available := by
  simp [List.find?_eq_some_iff_append]

theorem find?_truncations_eq_none :
    (truncations tag).find? (· ∈ available) = none ↔ ∀ s, Shortens s tag → s ∉ available := by
  simp [List.find?_eq_none, mem_truncations]

/-- The three rounds in which a tag is looked for. -/
theorem resolve_eq (requested : String) (available chain : List String) :
    resolve requested available chain =
      (((candidates requested).find? (· ∈ available)).or
        ((candidates requested).findSome? fun tag =>
          (truncations tag).find? (· ∈ available))).or (chain.find? (· ∈ available)) := by
  simp only [resolve, preferences, List.find?_append, List.find?_flatMap]

theorem resolve_eq_some_iff :
    resolve requested available chain = some t ↔
      Chosen (candidates requested) available chain t := by
  rw [resolve_eq, Option.or_eq_some_iff, Option.or_eq_some_iff, Option.or_eq_none_iff]
  constructor
  · rintro ((h | ⟨hwritten, h⟩) | ⟨⟨hwritten, hcut⟩, h⟩)
    · obtain ⟨hoffered, before, after, hsplit, hfirst⟩ := find?_mem_eq_some.mp h
      exact .written hsplit hoffered hfirst
    · obtain ⟨before, tag, after, hsplit, hfound, hnone⟩ := List.findSome?_eq_some_iff.mp h
      obtain ⟨hshort, hoffered, hlongest⟩ := find?_truncations.mp hfound
      refine .shortened hsplit hshort hoffered (by simpa using hwritten) ?_ hlongest
      exact fun c hc => find?_truncations_eq_none.mp (hnone c hc)
    · obtain ⟨hoffered, before, after, hsplit, hfirst⟩ := find?_mem_eq_some.mp h
      refine .fallback hsplit hoffered (by simpa using hwritten) ?_ hfirst
      exact fun c hc => find?_truncations_eq_none.mp (List.findSome?_eq_none_iff.mp hcut c hc)
  · rintro (⟨hsplit, hoffered, hfirst⟩ |
      ⟨hsplit, hshort, hoffered, hwritten, hfirst, hlongest⟩ |
      ⟨hsplit, hoffered, hwritten, huncut, hfirst⟩)
    · exact Or.inl (Or.inl (find?_mem_eq_some.mpr ⟨hoffered, _, _, hsplit, hfirst⟩))
    · refine Or.inl (Or.inr ⟨by simpa using hwritten, ?_⟩)
      refine List.findSome?_eq_some_iff.mpr ⟨_, _, _, hsplit, ?_, fun c hc => ?_⟩
      · exact find?_truncations.mpr ⟨hshort, hoffered, hlongest⟩
      · exact find?_truncations_eq_none.mpr (hfirst c hc)
    · refine Or.inr ⟨⟨by simpa using hwritten, ?_⟩, ?_⟩
      · exact List.findSome?_eq_none_iff.mpr fun c hc =>
          find?_truncations_eq_none.mpr (huncut c hc)
      · exact find?_mem_eq_some.mpr ⟨hoffered, _, _, hsplit, hfirst⟩

theorem mem_preferences :
    s ∈ preferences requested chain ↔
      (∃ c ∈ candidates requested, s = c ∨ Shortens s c) ∨ s ∈ chain := by
  simp only [preferences, List.mem_append, List.mem_flatMap, mem_truncations]
  constructor
  · rintro ((h | ⟨c, hc, h⟩) | h)
    · exact Or.inl ⟨s, h, Or.inl rfl⟩
    · exact Or.inl ⟨c, hc, Or.inr h⟩
    · exact Or.inr h
  · rintro (⟨c, hc, rfl | h⟩ | h)
    · exact Or.inl (Or.inl hc)
    · exact Or.inl (Or.inr ⟨c, hc, h⟩)
    · exact Or.inr h

theorem resolve_eq_none_iff :
    resolve requested available chain = none ↔
      ∀ s ∈ preferences requested chain, s ∉ available := by
  simp [resolve]

theorem mem_of_resolve (h : resolve requested available chain = some t) : t ∈ available := by
  simpa using List.find?_some h

theorem resolve_of_subset (hsub : fewer ⊆ available)
    (h : resolve requested available chain = some t) (ht : t ∈ fewer) :
    resolve requested fewer chain = some t := by
  obtain ⟨-, before, after, hsplit, hfirst⟩ := find?_mem_eq_some.mp h
  exact find?_mem_eq_some.mpr ⟨ht, before, after, hsplit, fun c hc hmem =>
    hfirst c hc (hsub hmem)⟩

theorem isSome_resolve_of_subset (hsub : fewer ⊆ available)
    (h : (resolve requested fewer chain).isSome) :
    (resolve requested available chain).isSome := by
  obtain ⟨t, ht⟩ := Option.isSome_iff_exists.mp h
  cases hr : resolve requested available chain with
  | some _ => rfl
  | none =>
    have hno := resolve_eq_none_iff.mp hr t (List.mem_of_find?_eq_some ht)
    exact absurd (hsub (mem_of_resolve ht)) hno

/-- A tag of the request that is available as written comes before all parts of tags and the
chain. -/
theorem Chosen.written_of_available (h : Chosen tags available chain t) (hs : s ∈ tags)
    (hoffered : s ∈ available) : t ∈ tags := by
  cases h with
  | written here => exact here ▸ List.mem_append_cons_self
  | shortened _ _ _ unwritten => exact absurd hoffered (unwritten s hs)
  | fallback _ _ unwritten => exact absurd hoffered (unwritten s hs)

theorem mem_or_eq_of_append_cons_eq {α : Type} {a b : α} {xs ys xs' ys' : List α}
    (h : xs ++ a :: ys = xs' ++ b :: ys') : b ∈ xs ∨ a = b ∨ a ∈ xs' := by
  rcases List.append_eq_append_iff.mp h with ⟨between, rfl, hrest⟩ | ⟨between, rfl, hrest⟩
  · cases between with
    | nil => exact Or.inr (Or.inl (List.cons.inj hrest).1)
    | cons _ between =>
      obtain ⟨rfl, -⟩ := List.cons.inj hrest
      exact Or.inr (Or.inr List.mem_append_cons_self)
  · cases between with
    | nil => exact Or.inr (Or.inl (List.cons.inj hrest).1.symm)
    | cons _ between =>
      obtain ⟨rfl, -⟩ := List.cons.inj hrest
      exact Or.inl List.mem_append_cons_self

/-- An available part of a tag comes before the shorter ones, before all parts of later tags, and
before the chain. -/
theorem Chosen.shortened_of_available (h : Chosen tags available chain t)
    {before after : List String} (here : tags = before ++ tag :: after) (hs : Shortens s tag)
    (hoffered : s ∈ available) :
    t ∈ tags ∨ (∃ c ∈ before, Shortens t c) ∨ Shortens t tag ∧ s.length ≤ t.length := by
  cases h with
  | written there => exact Or.inl (there ▸ List.mem_append_cons_self)
  | fallback _ _ _ uncut =>
    exact absurd hoffered (uncut tag (here ▸ List.mem_append_cons_self) s hs)
  | @shortened before' after' tag' there cut _ _ first longest =>
    right
    rcases mem_or_eq_of_append_cons_eq (here.symm.trans there) with hmem | rfl | hmem
    · exact Or.inl ⟨tag', hmem, cut⟩
    · exact Or.inr ⟨cut, Nat.le_of_not_lt fun hlt => longest s hs hlt hoffered⟩
    · exact absurd hoffered (first tag hmem s hs)

end Language

theorem Localizer.resolve_eq_error_iff {l : Localizer} {requested : String} {f : Fault} :
    l.resolve requested = .error f ↔ f = .noLanguage requested ∧
      Language.resolve requested l.client.tags l.config.fallbackLanguages = none := by
  unfold Localizer.resolve
  cases Language.resolve requested l.client.tags l.config.fallbackLanguages with
  | some tag => simp
  | none => simp [eq_comm]

namespace Language

/-- A tag that is chosen is available, and it is chosen also where fewer tags are available, itself
among them; with more tags there is no less of a choice. A request is refused exactly if no tag in
it is available, nothing that stands before a hyphen of one, and no entry of the chain. A tag of the
request that is available as written comes before everything else; then an available part of a tag
comes before the shorter ones, the parts of later tags and the chain. In full, the first available
tag of the request is chosen; if there is none, the longest available part of the first tag that has
one; and if there is none, the first available entry of the chain. -/
theorem choice_consistent (requested : String) (chain : List String) :
    (∀ available t, resolve requested available chain = some t → t ∈ available) ∧
    (∀ available fewer, fewer ⊆ available →
      (∀ t, resolve requested available chain = some t → t ∈ fewer →
        resolve requested fewer chain = some t) ∧
      ((resolve requested fewer chain).isSome → (resolve requested available chain).isSome)) ∧
    (∀ available, resolve requested available chain = none ↔
      (∀ c ∈ candidates requested, c ∉ available) ∧
      (∀ c ∈ candidates requested, ∀ s, Shortens s c → s ∉ available) ∧
      ∀ c ∈ chain, c ∉ available) ∧
    (∀ (l : Localizer) (f : Fault), l.config.fallbackLanguages = chain →
      (l.resolve requested = .error f ↔
        f = .noLanguage requested ∧ resolve requested l.client.tags chain = none)) ∧
    (∀ available t, resolve requested available chain = some t →
      (∀ c ∈ candidates requested, c ∈ available → t ∈ candidates requested) ∧
      ∀ before tag after s, candidates requested = before ++ tag :: after → Shortens s tag →
        s ∈ available →
        t ∈ candidates requested ∨ (∃ c ∈ before, Shortens t c) ∨
          Shortens t tag ∧ s.length ≤ t.length) ∧
    ∀ available t, resolve requested available chain = some t ↔
      Chosen (candidates requested) available chain t := by
  refine ⟨fun _ _ => mem_of_resolve, fun available fewer hsub => ⟨fun t => ?_, ?_⟩,
    fun available => ?_, ?_, fun available t h => ?_, fun _ _ => resolve_eq_some_iff⟩
  · exact resolve_of_subset hsub
  · exact isSome_resolve_of_subset hsub
  · rw [resolve_eq_none_iff]
    constructor
    · intro h
      refine ⟨fun c hc => ?_, fun c hc s hs => ?_, fun c hc => ?_⟩
      · exact h c (mem_preferences.mpr (Or.inl ⟨c, hc, Or.inl rfl⟩))
      · exact h s (mem_preferences.mpr (Or.inl ⟨c, hc, Or.inr hs⟩))
      · exact h c (mem_preferences.mpr (Or.inr hc))
    · rintro ⟨hwritten, hcut, hchain⟩ s hs
      rcases mem_preferences.mp hs with ⟨c, hc, rfl | hs⟩ | hs
      · exact hwritten s hc
      · exact hcut c hc s hs
      · exact hchain s hs
  · rintro l f rfl
    exact Localizer.resolve_eq_error_iff
  · have hchosen := resolve_eq_some_iff.mp h
    refine ⟨fun c hc => hchosen.written_of_available hc, ?_⟩
    exact fun before tag after s => hchosen.shortened_of_available

/-- The longest part of a regional tag is chosen, whether or not its language is available too. -/
theorem choice_consistent_regional :
    let requested := "de-DE,en-GB-oxendict;q=0.8"
    let chain := ["*", "fr"]
    let available := ["fr", "en", "en-GB"]
    let fewer := ["en-GB"]
    fewer ⊆ available ∧ resolve requested available chain = some "en-GB" ∧
      resolve requested fewer chain = some "en-GB" ∧
      Shortens "en" "en-GB-oxendict" ∧ "en" ∈ available ∧
      ("en-GB" ∈ candidates requested ∨ (∃ c ∈ ["de-DE"], Shortens "en-GB" c) ∨
        Shortens "en-GB" "en-GB-oxendict" ∧ "en".length ≤ "en-GB".length) := by
  intro requested chain available fewer
  have hsub : fewer ⊆ available := by decide
  have h : resolve requested available chain = some "en-GB" := by decide +kernel
  have hsplit : candidates requested = ["de-DE"] ++ "en-GB-oxendict" :: ["q", "0", "8"] := by
    decide +kernel
  have hshort : Shortens "en" "en-GB-oxendict" := ⟨"GB-oxendict", rfl⟩
  have hoffered : "en" ∈ available := by decide
  obtain ⟨-, hfewer, -, -, hbeats, -⟩ := choice_consistent requested chain
  obtain ⟨hstays, -⟩ := hfewer available fewer hsub
  obtain ⟨-, hlonger⟩ := hbeats available "en-GB" h
  exact ⟨hsub, h, hstays "en-GB" h (by decide), hshort, hoffered,
    hlonger ["de-DE"] "en-GB-oxendict" ["q", "0", "8"] "en" hsplit hshort hoffered⟩

end Language

end Phrasebook
