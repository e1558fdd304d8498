import Phrasebook.Proofs.Language.Choice

/-!
# The tags of a request

A tag is one or more words joined by single hyphens. What is found in a request is of this form,
and a request of this form is its own only tag; so what stands before a hyphen of a tag is a tag
too, and whatever is chosen for a request is chosen for itself.
-/

namespace Phrasebook.Language

open Pattern (isWord)

variable {w tag cut rest cs : List Char} {hyphen : Bool} {requested s t : String}
  {available chain : List String}

/-- Words joined by single hyphens. -/
inductive IsTag : List Char → Prop where
  | word {w : List Char} (nonempty : w ≠ []) (letters : ∀ c ∈ w, isWord c = true) : IsTag w
  | subtag {tag w : List Char} (start : IsTag tag) (nonempty : w ≠ [])
      (letters : ∀ c ∈ w, isWord c = true) : IsTag (tag ++ '-' :: w)

theorem hyphen_not_mem (hw : ∀ c ∈ w, isWord c = true) : '-' ∉ w := fun h =>
  absurd (hw '-' h) (by decide)

theorem IsTag.ne_nil (h : IsTag tag) : tag ≠ [] := by
  cases h with
  | word hne => exact hne
  | subtag => simp

theorem IsTag.of_cut (h : IsTag tag) (heq : tag = cut ++ '-' :: rest) : IsTag cut := by
  induction h generalizing rest with
  | word _ hw => exact absurd (heq ▸ List.mem_append_cons_self) (hyphen_not_mem hw)
  | @subtag tag w ht _ hw ih =>
    rcases List.append_eq_append_iff.mp heq with ⟨between, rfl, hrest⟩ | ⟨between, rfl, hrest⟩
    · cases between with
      | nil =>
        rw [List.append_nil]
        exact ht
      | cons c between =>
        -- a hyphen would stand in the last word
        obtain ⟨-, rfl⟩ := List.cons.inj hrest
        exact absurd List.mem_append_cons_self (hyphen_not_mem hw)
    · cases between with
      | nil =>
        rw [List.append_nil] at ht
        exact ht
      | cons c between =>
        obtain ⟨rfl, -⟩ := List.cons.inj hrest
        exact ih rfl

theorem IsTag.snoc (h : IsTag tag) {c : Char} (hc : isWord c = true) : IsTag (tag ++ [c]) := by
  have hletters : ∀ {w : List Char}, (∀ d ∈ w, isWord d = true) →
      ∀ d ∈ w ++ [c], isWord d = true := by
    intro w hw d hd
    rcases List.mem_append.mp hd with hd | hd
    · exact hw d hd
    · rw [List.mem_singleton.mp hd]
      exact hc
  cases h with
  | word _ hw => exact .word (by simp) (hletters hw)
  | subtag ht _ hw =>
    rw [List.append_assoc, List.cons_append]
    exact .subtag ht (by simp) (hletters hw)

theorem scan_word (hw : ∀ c ∈ w, isWord c = true) (tag rest : List Char) :
    scan tag false (w ++ rest) = scan (tag ++ w) false rest := by
  induction w generalizing tag with
  | nil => simp
  | cons c w ih =>
    have hc := hw c List.mem_cons_self
    rw [List.cons_append, scan, if_pos hc, if_neg Bool.false_ne_true,
      ih fun d hd => hw d (List.mem_cons_of_mem c hd)]
    simp

theorem scan_subtag (htag : tag ≠ []) (hne : w ≠ []) (hw : ∀ c ∈ w, isWord c = true)
    (rest : List Char) :
    scan tag false ('-' :: (w ++ rest)) = scan (tag ++ '-' :: w) false rest := by
  obtain ⟨c, w, rfl⟩ := List.exists_cons_of_ne_nil hne
  have hc := hw c List.mem_cons_self
  have hhyphen : ¬ isWord '-' = true := by decide
  rw [scan, if_neg hhyphen, if_pos ⟨rfl, htag, rfl⟩, List.cons_append, scan, if_pos hc, if_pos rfl,
    scan_word fun d hd => hw d (List.mem_cons_of_mem c hd)]
  simp

theorem IsTag.scan_append (h : IsTag tag) (rest : List Char) :
    scan [] false (tag ++ rest) = scan tag false rest := by
  induction h generalizing rest with
  | word _ hw => exact scan_word hw [] rest
  | subtag ht hne hw ih =>
    rw [List.append_assoc, ih, List.cons_append]
    exact scan_subtag ht.ne_nil hne hw rest

theorem isTag_of_mem_scan (hread : tag = [] ∧ hyphen = false ∨ IsTag tag)
    (hmem : cut ∈ scan tag hyphen cs) : IsTag cut := by
  induction cs generalizing tag hyphen with
  | nil =>
    rw [scan] at hmem
    split at hmem
    · exact absurd hmem List.not_mem_nil
    · rw [List.mem_singleton.mp hmem]
      exact hread.resolve_left fun h => absurd h.1 ‹_›
  | cons c cs ih =>
    rw [scan] at hmem
    split at hmem
    · rename_i hc
      refine ih (Or.inr ?_) hmem
      have hword : ∀ d ∈ [c], isWord d = true := by simpa using hc
      rcases hread with ⟨rfl, rfl⟩ | htag
      · exact .word (by simp) hword
      · split
        · exact .subtag htag (by simp) hword
        · exact htag.snoc hc
    · split at hmem
      · rename_i h
        exact ih (hread.imp_left fun hnil => absurd hnil.1 h.2.1) hmem
      · split at hmem
        · exact ih (Or.inl ⟨rfl, rfl⟩) hmem
        · rename_i hne
          rcases List.mem_cons.mp hmem with rfl | hmem
          · exact hread.resolve_left fun h => hne h.1
          · exact ih (Or.inl ⟨rfl, rfl⟩) hmem

theorem scan_eq_nil (h : ∀ c ∈ cs, isWord c = false) : scan [] false cs = [] := by
  induction cs with
  | nil => rfl
  | cons c cs ih =>
    have hc : ¬ isWord c = true := by simp [h c List.mem_cons_self]
    rw [scan, if_neg hc, if_neg (by simp), if_pos rfl]
    exact ih fun d hd => h d (List.mem_cons_of_mem c hd)

theorem isTag_of_mem_candidates (h : t ∈ candidates requested) : IsTag t.toList := by
  obtain ⟨cut, hmem, rfl⟩ := List.mem_map.mp h
  rw [String.toList_ofList]
  exact isTag_of_mem_scan (Or.inl ⟨rfl, rfl⟩) hmem

theorem candidates_of_isTag (h : IsTag t.toList) : candidates t = [t] := by
  have hscan := h.scan_append []
  rw [List.append_nil, scan, if_neg h.ne_nil] at hscan
  rw [candidates, hscan, List.map_singleton, String.ofList_toList]

theorem candidates_of_wordless (h : ∀ c ∈ t.toList, isWord c = false) : candidates t = [] := by
  rw [candidates, scan_eq_nil h, List.map_nil]

theorem Shortens.isTag (h : Shortens s t) (ht : IsTag t.toList) : IsTag s.toList := by
  obtain ⟨rest, rfl⟩ := h
  exact @IsTag.of_cut _ _ rest.toList ht (by simp)

/-- An entry of a chain that is one tag and nothing else, or in which there is no tag at all. -/
def Plain (entry : String) : Prop :=
  IsTag entry.toList ∨ ∀ c ∈ entry.toList, isWord c = false

theorem plain_defaultChain : ∀ entry ∈ defaultChain, Plain entry := by
  intro entry hmem
  have htag : ∀ {t : String}, candidates t = [t] → Plain t := fun h =>
    Or.inl (isTag_of_mem_candidates (h ▸ List.mem_singleton.mpr rfl))
  simp only [defaultChain, List.mem_cons, List.not_mem_nil, or_false] at hmem
  rcases hmem with rfl | rfl | rfl | rfl
  · refine Or.inr fun c hc => ?_
    obtain rfl : c = '*' := by simpa using hc
    decide
  · exact htag (by decide +kernel)
  · exact htag (by decide +kernel)
  · exact htag (by decide +kernel)

theorem resolve_of_isTag (h : IsTag t.toList) (ht : t ∈ available) :
    resolve t available chain = some t := by
  have here : candidates t = [] ++ t :: [] := candidates_of_isTag h
  exact resolve_eq_some_iff.mpr (.written here ht (by simp))

/-- Where every entry of the chain is plain, what is chosen for a request is chosen for itself. -/
theorem resolve_resolved (hchain : ∀ entry ∈ chain, Plain entry)
    (h : resolve requested available chain = some t) : resolve t available chain = some t := by
  have ht := mem_of_resolve h
  cases resolve_eq_some_iff.mp h with
  | written here =>
    have hmem : t ∈ candidates requested := here ▸ List.mem_append_cons_self
    exact resolve_of_isTag (isTag_of_mem_candidates hmem) ht
  | @shortened _ _ tag here cut =>
    have hmem : tag ∈ candidates requested := here ▸ List.mem_append_cons_self
    exact resolve_of_isTag (cut.isTag (isTag_of_mem_candidates hmem)) ht
  | fallback here hoffered _ _ first =>
    rcases hchain t (here ▸ List.mem_append_cons_self) with htag | hwordless
    · exact resolve_of_isTag htag ht
    · -- an entry without tags is reached through the chain once more
      have hnone := candidates_of_wordless hwordless
      refine resolve_eq_some_iff.mpr (.fallback here hoffered ?_ ?_ first)
      · simp [hnone]
      · simp [hnone]

end Phrasebook.Language
