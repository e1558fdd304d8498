import Mathlib.Algebra.GroupWithZero.Nat
import Mathlib.Data.List.Chain
import Phrasebook.Proofs.Quantity.Writing

/-!
# Forms that are written as they are

No bracket opens in such a form, no tilde stands before a character that it would escape, and no `_`
before a digit. Other forms come out changed, which is seen by counting characters: a hidden
reference leaves a bracket, one to the handle a parenthesis, any other loses its `_`, and an escape
makes the form shorter. Only the text of the count could make up for that.
-/

namespace Phrasebook

namespace Pattern

variable {c : Char} {s w : List Char}

theorem length_decode_le (s : List Char) : (decode s).length ≤ s.length := by
  fun_induction decode s with
  | case1 c cs _ ih => simp only [List.length_cons]; omega
  | case2 c cs _ ih => simpa using ih
  | case3 c cs _ ih => simpa using ih
  | case4 => exact Nat.le_refl _

theorem count_decode (hc : c ≠ '~') (s : List Char) : (decode s).count c = s.count c := by
  fun_induction decode s with
  | case1 d cs _ ih => simp [List.count_cons, ih, Ne.symm hc]
  | case2 d cs _ ih => simp [List.count_cons, ih]
  | case3 d cs _ ih => simp [List.count_cons, ih]
  | case4 => rfl

/-- A tilde does not escape its neighbour. -/
def Unescaped (c d : Char) : Prop := ¬ (c = '~' ∧ isEscapable d = true)

theorem decode_eq_self_iff (s : List Char) : decode s = s ↔ s.IsChain Unescaped := by
  fun_induction decode s with
  | case1 c cs hc _ =>
    refine ⟨fun h => ?_, fun h => ?_⟩
    · have hlen := congrArg List.length h
      have hle := length_decode_le cs
      simp only [List.length_cons] at hlen
      omega
    · exact absurd ⟨rfl, hc⟩ (List.isChain_cons_cons.1 h).1
  | case2 c cs hc ih =>
    rw [List.isChain_cons_cons, ← ih]
    simp [Unescaped, hc]
  | case3 c cs hne ih =>
    have hfirst : ∀ d ∈ cs.head?, Unescaped c d := by
      rintro d hd ⟨rfl, -⟩
      cases cs with
      | nil => contradiction
      | cons e es => exact hne e es rfl rfl
    rw [List.isChain_cons, ← ih]
    exact ⟨fun h => ⟨hfirst, (List.cons.inj h).2⟩, fun h => congrArg _ h.2⟩
  | case4 => simp

end Pattern

namespace Quantity

open Pattern

/-- No reference starts with these neighbours. -/
def Unreferring (c d : Char) : Prop := ¬ (c = '_' ∧ d.isDigit = true)

/-- Nothing in the form has a meaning. -/
structure Inert (form : List Char) : Prop where
  unbracketed : '[' ∉ form
  unescaped : form.IsChain Unescaped
  unreferring : form.IsChain Unreferring

section Inert

variable {c : Char} {s w : List Char} {m : Mention} {ms : List Mention} {value : Nat → List Char}

theorem cut_eq_self_iff (s : List Char) : (cut s).2 = [] ↔ s.IsChain Unreferring := by
  induction s with
  | nil => exact ⟨fun _ => .nil, fun _ => rfl⟩
  | cons c cs ih =>
    have hfirst : (∀ d ∈ cs.head?, Unreferring c d) ↔ ¬ (c = '_' ∧ startsWithDigit cs = true) := by
      cases cs with
      | nil => simp [startsWithDigit]
      | cons d ds => simp [startsWithDigit, Unreferring]
    rw [List.isChain_cons, ← ih, hfirst, ← startsWithDigit_cut cs]
    by_cases h : c = '_' ∧ startsWithDigit (cut cs).1 = true
    · rw [h.1, cut_reference h.2]
      simp [h.2]
    · rw [cut_plain h]
      simp [h]

theorem count_substituted (hc : c ≠ '~') (w : List Char) (ms : List Mention) :
    (substituted value w ms).count c = w.count c +
      (ms.map fun m => (value m.index).count c).sum + (ms.map fun m => m.text.count c).sum := by
  induction ms generalizing w with
  | nil => simp [substituted, count_decode hc]
  | cons m ms ih =>
    rw [substituted_cons, List.count_append, List.count_append, ih, count_decode hc]
    simp only [List.map_cons, List.sum_cons]
    omega

theorem count_behind (c : Char) (w : List Char) (ms : List Mention) :
    (w ++ behind Mention.bare ms).count c = w.count c +
      (ms.map fun m => m.bare.count c).sum + (ms.map fun m => m.text.count c).sum := by
  induction ms with
  | nil => simp
  | cons m ms ih =>
    simp only [List.count_append, behind_cons, List.map_cons, List.sum_cons] at ih ⊢
    omega

theorem bracket_mem_written (h : hides w ms = true) : '[' ∈ written value w ms := by
  induction ms generalizing w with
  | nil => contradiction
  | cons m ms ih =>
    rw [written]
    split
    · simp [Mention.bracketed]
    · rename_i hd
      rw [hides, Bool.or_eq_true] at h
      exact List.mem_append_right _ (ih (h.resolve_left hd))

/-- If replacing the references changes nothing, the values have as many characters of a kind as the
references. -/
theorem sum_count_value (hc : c ≠ '~') (h : substituted value w ms = w ++ behind Mention.bare ms) :
    (ms.map fun m => (value m.index).count c).sum = (ms.map fun m => m.bare.count c).sum := by
  have hcount := congrArg (List.count c) h
  rw [count_substituted hc, count_behind] at hcount
  omega

theorem Mention.Proper.count_bare (hm : m.Proper) (hc : c ≠ '_') (hd : c.isDigit = false) :
    m.bare.count c = 0 := by
  rw [List.count_eq_zero, Mention.bare, List.mem_cons, not_or]
  exact ⟨hc, fun hmem => by simpa [hd] using hm.digits c hmem⟩

theorem Mention.Proper.count_underscore (hm : m.Proper) : m.bare.count '_' = 1 := by
  have hnone : m.digits.count '_' = 0 :=
    List.count_eq_zero.2 fun hmem => absurd (hm.digits _ hmem) (by decide)
  rw [Mention.bare, List.count_cons_self, hnone]

theorem no_mentions (hms : ∀ m ∈ ms, m.Proper) (hzero : '(' ∈ value 0)
    (hvalue : ∀ n, '_' ∉ value (n + 1))
    (h : substituted value w ms = w ++ behind Mention.bare ms) : ms = [] := by
  have hsum : ∀ {f g : Mention → Nat}, (∀ m ∈ ms, f m = g m) → (ms.map f).sum = (ms.map g).sum :=
    fun hfg => congrArg List.sum (List.map_congr_left hfg)
  have hbare : (ms.map fun m => m.bare.count '(').sum = (ms.map fun _ => 0).sum :=
    hsum fun m hm => (hms m hm).count_bare (by decide) (by decide)
  have hparentheses := (sum_count_value (c := '(') (by decide) h).trans hbare
  have hindex : ∀ m ∈ ms, m.index ≠ 0 := by
    intro m hm hi
    have hnone := List.sum_eq_zero_iff_forall_eq_nat.1 (hparentheses.trans (by simp))
      _ (List.mem_map_of_mem hm)
    rw [hi, List.count_eq_zero] at hnone
    exact hnone hzero
  have hplain : (ms.map fun m => (value m.index).count '_').sum = (ms.map fun _ => 0).sum := by
    refine hsum fun m hm => ?_
    obtain ⟨n, hn⟩ := Nat.exists_eq_succ_of_ne_zero (hindex m hm)
    rw [hn, List.count_eq_zero]
    exact hvalue n
  have hone : (ms.map fun m => m.bare.count '_').sum = (ms.map fun _ => 1).sum :=
    hsum fun m hm => (hms m hm).count_underscore
  have hunderscores := hplain.symm.trans ((sum_count_value (c := '_') (by decide) h).trans hone)
  exact List.length_eq_zero_iff.1 (by simpa using hunderscores.symm)

theorem Inert.simple {form : String} (h : Inert form.toList) : Simple form := by
  refine ⟨h.unbracketed, ?_⟩
  rw [(cut_eq_self_iff _).2 h.unreferring]
  exact fun _ hm => nomatch hm

theorem Inert.written (h : Inert s) : written value (cut s).1 (cut s).2 = s := by
  have hself := cut_behind s
  have hnone := (cut_eq_self_iff s).2 h.unreferring
  rw [hnone, behind_nil, List.append_nil] at hself
  rw [hnone, Quantity.written, hself, (decode_eq_self_iff s).2 h.unescaped]

/-- A form without brackets is written as it is only if nothing in it has a meaning. -/
theorem written_eq_self_iff (hs : '[' ∉ s) (hzero : '(' ∈ value 0)
    (hvalue : ∀ n, '_' ∉ value (n + 1)) :
    written value (cut s).1 (cut s).2 = s ↔ Inert s := by
  have hself := cut_behind s
  constructor
  · intro h
    have hhides : hides (cut s).1 (cut s).2 = false := by
      rw [Bool.eq_false_iff]
      exact fun hh => hs (h ▸ bracket_mem_written hh)
    rw [(written_eq_iff _ _).2 hhides] at h
    have hnone := no_mentions (proper_cut s) hzero hvalue (h.trans hself.symm)
    rw [hnone, behind_nil, List.append_nil] at hself
    refine ⟨hs, (decode_eq_self_iff s).1 ?_, (cut_eq_self_iff s).1 hnone⟩
    simpa [substituted, hnone, hself] using h
  · exact Inert.written

theorem mem_toList_append {a : String} (h : c ∈ a.toList) (b : String) : c ∈ (a ++ b).toList := by
  rw [String.toList_append]
  exact List.mem_append_left _ h

theorem parenthesis_mem_text (h : Handle) : '(' ∈ h.text.toList := by
  have hopening : '(' ∈ "TranslationHandle(tag=".toList := by decide
  have htag := mem_toList_append hopening (Text.quoted h.tag)
  have hdomain := mem_toList_append htag ", default_domain="
  exact mem_toList_append (mem_toList_append hdomain (Text.quoted h.defaultDomain)) ")"

theorem writtenForm_eq_self_iff (h : Handle) {count form : String} (hcount : '_' ∉ count.toList)
    (hform : '[' ∉ form.toList) : writtenForm h count form = form ↔ Inert form.toList := by
  have hzero : '(' ∈ valueOf h count 0 := parenthesis_mem_text h
  have hvalue : ∀ n, '_' ∉ valueOf h count (n + 1) := by
    intro n
    cases n with
    | zero => exact hcount
    | succ n => exact List.not_mem_nil
  rw [← written_eq_self_iff hform hzero hvalue, writtenForm, ← String.toList_inj,
    String.toList_ofList]

end Inert

end Quantity

end Phrasebook
