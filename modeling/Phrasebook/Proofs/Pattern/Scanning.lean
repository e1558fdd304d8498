import Phrasebook.Proofs.Pattern.Grammar

/-!
Text is cut where the grammar says that it ends: a scanner stops at the end of the pattern or at
the first character that still has a meaning, and the text before it spells what its decoding is.
-/

namespace Phrasebook.Pattern

variable {stop : Char → Bool} {final : Bool} {c : Char} {s w t rest : List Char}

/-- A tilde takes the meaning of each character that stops a text away, and stops none itself. -/
def Escapes (stop : Char → Bool) : Prop := ∀ c, stop c = true → isEscapable c = true ∧ c ≠ '~'

theorem escapes_opensDirective : Escapes opensDirective := by
  intro c h
  obtain rfl : c = '[' := by simpa [opensDirective] using h
  decide

theorem escapes_endsArgument : Escapes endsArgument := by
  intro c h
  simp only [endsArgument, Bool.or_eq_true, decide_eq_true_eq] at h
  rcases h with (rfl | rfl) | rfl <;> decide

theorem Escapes.tilde (hs : Escapes stop) : stop '~' = false := by
  by_cases h : stop '~' = true
  · exact absurd rfl (hs '~' h).2
  · simpa using h

theorem Escapes.plain (hs : Escapes stop) (hc : isEscapable c = false) :
    c ≠ '~' ∧ stop c = false := by
  refine ⟨?_, ?_⟩
  · rintro rfl
    exact absurd hc (by decide)
  · by_cases h : stop c = true
    · have := (hs c h).1
      rw [hc] at this
      cases this
    · simpa using h

theorem scanText_escape (hc : isEscapable c = true) (s : List Char) :
    scanText stop ('~' :: c :: s) = ('~' :: c :: (scanText stop s).1, (scanText stop s).2) := by
  rw [scanText, if_pos hc]

theorem scanText_tilde (hc : isEscapable c = false) (s : List Char) :
    scanText stop ('~' :: c :: s) =
      ('~' :: (scanText stop (c :: s)).1, (scanText stop (c :: s)).2) := by
  rw [scanText, if_neg (by simp [hc])]

theorem scanText_plain (ht : c ≠ '~') (hc : stop c = false) (s : List Char) :
    scanText stop (c :: s) = (c :: (scanText stop s).1, (scanText stop s).2) := by
  rw [scanText, if_neg (by simp [hc])]
  rintro d ds rfl
  exact absurd rfl ht

theorem scanText_stop (ht : c ≠ '~') (hc : stop c = true) (s : List Char) :
    scanText stop (c :: s) = ([], c :: s) := by
  rw [scanText, if_pos hc]
  rintro d ds rfl
  exact absurd rfl ht

theorem decode_plain (ht : c ≠ '~') (s : List Char) : decode (c :: s) = c :: decode s := by
  rw [decode]
  rintro d ds rfl
  exact absurd rfl ht

theorem Spells.decode_eq (h : Spells stop final w t) : decode w = t := by
  induction h with
  | nil => rfl
  | escape hc _ ih => rw [decode, if_pos hc, ih]
  | tilde hc _ ih => rw [decode, if_neg (by simp [hc]), ih]
  | plain ht _ _ ih => rw [decode_plain ht, ih]
  | last => rfl

theorem Spells.scan (hs : Escapes stop) (h : Spells stop final w t)
    (hr : scanText stop rest = ([], rest)) (hf : final = true → rest = []) :
    scanText stop (w ++ rest) = (w, rest) := by
  induction h with
  | nil => exact hr
  | escape hc _ ih => rw [List.cons_append, List.cons_append, scanText_escape hc, ih hf]
  | tilde hc _ ih =>
    have := ih hf
    rw [List.cons_append] at this ⊢
    rw [List.cons_append, scanText_tilde hc, this]
  | plain ht hc _ ih => rw [List.cons_append, scanText_plain ht hc, ih hf]
  | last =>
    rw [hf rfl, List.append_nil, scanText, if_neg (by simp [hs.tilde])]
    · rfl
    · rintro d ds _ ⟨⟩

theorem spells_scanText (hs : Escapes stop) (s : List Char) :
    ∃ t, Spells stop (scanText stop s).2.isEmpty (scanText stop s).1 t := by
  fun_induction scanText stop s with
  | case1 c s hc text rest e ih =>
    obtain ⟨t, ht⟩ := ih
    exact ⟨c :: t, .escape hc (by simpa [e] using ht)⟩
  | case2 c s hc text rest e ih =>
    obtain ⟨t, ht⟩ := ih
    have hc : isEscapable c = false := by simpa using hc
    obtain ⟨hne, hstop⟩ := hs.plain hc
    -- the character after the tilde stops nothing, so the text goes on with it
    rw [scanText_plain hne hstop] at e ht
    obtain ⟨rfl, rfl⟩ := Prod.mk.inj e
    exact ⟨'~' :: t, .tilde hc ht⟩
  | case3 => exact ⟨[], .nil⟩
  | case4 c s hne hc text rest e ih =>
    obtain ⟨t, ht⟩ := ih
    rw [e] at ht
    by_cases hc' : c = '~'
    · subst hc'
      cases s with
      | nil =>
        obtain ⟨rfl, rfl⟩ := Prod.mk.inj e
        exact ⟨['~'], .last⟩
      | cons d s => exact absurd rfl (hne d s rfl)
    · exact ⟨c :: t, .plain hc' (by simpa using hc) ht⟩
  | case5 => exact ⟨[], .nil⟩

theorem stop_scanText {r : List Char} (h : (scanText stop s).2 = c :: r) : stop c = true := by
  fun_induction scanText stop s with
  | case1 d s hd text rest e ih => exact ih (by simpa [e] using h)
  | case2 d s hd text rest e ih => exact ih (by simpa [e] using h)
  | case3 d s _ hd =>
    obtain ⟨rfl, -⟩ := List.cons.inj h
    exact hd
  | case4 d s _ hd text rest e ih => exact ih (by simpa [e] using h)
  | case5 => cases h

theorem cutText_stop {r : List Char} (h : scanText stop s = (w, c :: r)) :
    ∃ r' : Rest s, cutText stop s = (w, some (c, r')) ∧ r'.1 = r := by
  unfold cutText
  split <;> rename_i h' <;> rw [h] at h' <;> cases h'
  exact ⟨_, rfl, rfl⟩

theorem cutText_end (h : scanText stop s = (w, [])) : cutText stop s = (w, none) := by
  unfold cutText
  split <;> rename_i h' <;> rw [h] at h' <;> cases h'
  rfl

theorem cutText_cases (hs : Escapes stop) (s : List Char) :
    (∃ t, Spells stop true s t ∧ cutText stop s = (s, none)) ∨
    (∃ w t c, ∃ r : Rest s, Spells stop false w t ∧ stop c = true ∧ s = w ++ c :: r.1 ∧
      cutText stop s = (w, some (c, r))) := by
  obtain ⟨t, ht⟩ := spells_scanText hs s
  have happ := scanText_append stop s
  match h : scanText stop s with
  | (w, []) =>
    rw [h] at ht happ
    obtain rfl : w = s := by simpa using happ
    exact .inl ⟨t, ht, cutText_end h⟩
  | (w, c :: r) =>
    obtain ⟨r', hr', rfl⟩ := cutText_stop h
    have hc : stop c = true := stop_scanText (by rw [h])
    rw [h] at ht happ
    exact .inr ⟨w, t, c, r', ht, hc, happ.symm, hr'⟩

theorem Spells.cut_stop (hs : Escapes stop) (h : Spells stop false w t) (hc : stop c = true)
    (s : List Char) : ∃ r : Rest (w ++ c :: s),
      cutText stop (w ++ c :: s) = (w, some (c, r)) ∧ r.1 = s :=
  cutText_stop (h.scan hs (scanText_stop (hs c hc).2 hc s) (fun hf => nomatch hf))

theorem Spells.cut_end (hs : Escapes stop) (h : Spells stop final w t) :
    cutText stop w = (w, none) := by
  have : scanText stop (w ++ []) = (w, []) := h.scan hs rfl fun _ => rfl
  rw [List.append_nil] at this
  exact cutText_end this

theorem spells_self (hs : Escapes stop) (h : ∀ c ∈ w, isEscapable c = false) :
    Spells stop final w w := by
  induction w with
  | nil => exact .nil
  | cons c w ih =>
    obtain ⟨ht, hc⟩ := hs.plain (h c List.mem_cons_self)
    exact .plain ht hc (ih fun d hd => h d (List.mem_cons_of_mem c hd))

end Phrasebook.Pattern
