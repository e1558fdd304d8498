import Mathlib.Data.List.Induction
import Phrasebook.Proofs.Pattern.Scanning

/-!
References, method tokens and pieces of text are read as the grammar has them. Numbers of any
length are scanned; only their index is refused when they are too long.
-/

namespace Phrasebook.Pattern

variable {ds w t s rest : List Char} {c : Char} {n k : Nat} {i : Int} {m : Method} {node : Node}

theorem Numeral.digits (h : Numeral ds n) :
    ds ≠ [] ∧ (∀ c ∈ ds, c.isDigit = true) ∧ Text.ofDigits ds = n := by
  induction h with
  | digit hc => simp [Text.ofDigits, hc]
  | snoc _ hc ih =>
    obtain ⟨-, hall, rfl⟩ := ih
    refine ⟨by simp, ?_, by simp [Text.ofDigits]⟩
    intro d hd
    rcases List.mem_append.1 hd with hd | hd
    · exact hall d hd
    · rw [List.mem_singleton.1 hd]
      exact hc

theorem numeral_ofDigits (hne : ds ≠ []) (hd : ∀ c ∈ ds, c.isDigit = true) :
    Numeral ds (Text.ofDigits ds) := by
  induction ds using List.reverseRecOn with
  | nil => exact absurd rfl hne
  | append_singleton ds c ih =>
    have hc := hd c (by simp)
    by_cases hds : ds = []
    · subst hds
      simpa [Text.ofDigits] using Numeral.digit hc
    · have hn := ih hds fun d hd' => hd d (List.mem_append_left _ hd')
      simpa [Text.ofDigits] using Numeral.snoc hn hc

theorem takeWhile_append_head {p : Char → Bool} (hw : ∀ c ∈ w, p c = true)
    (hr : ∀ c ∈ rest.head?, p c = false) :
    (w ++ rest).takeWhile p = w ∧ (w ++ rest).dropWhile p = rest := by
  rw [List.takeWhile_append_of_pos hw, List.dropWhile_append_of_pos hw]
  cases rest with
  | nil => simp
  | cons d rest => simp [hr d rfl]

theorem isEscapable_of_class {p : Char → Bool} (hc : p c = true)
    (hp : p '[' = false ∧ p ']' = false ∧ p ',' = false ∧ p '~' = false) :
    isEscapable c = false := by
  by_cases h : isEscapable c = true
  · obtain ⟨h₁, h₂, h₃, h₄⟩ := hp
    simp only [isEscapable, Bool.or_eq_true, decide_eq_true_eq] at h
    rcases h with ((rfl | rfl) | rfl) | rfl <;> simp_all
  · simpa using h

theorem isEscapable_digit (hc : c.isDigit = true) : isEscapable c = false :=
  isEscapable_of_class hc (by decide)

theorem isEscapable_nameStart (hc : isNameStart c = true) : isEscapable c = false :=
  isEscapable_of_class hc (by decide)

theorem isEscapable_word (hc : isWord c = true) : isEscapable c = false :=
  isEscapable_of_class hc (by decide)

theorem minusSign_digits (hne : ds ≠ []) (hd : ∀ c ∈ ds, c.isDigit = true) (rest : List Char) :
    minusSign (ds ++ rest) = ([], ds ++ rest) := by
  cases ds with
  | nil => exact absurd rfl hne
  | cons d ds =>
    unfold minusSign
    split
    · rename_i h
      obtain ⟨rfl, -⟩ := List.cons.inj h
      exact absurd (hd '-' List.mem_cons_self) (by decide)
    · rfl

theorem Reference.scan (h : Reference w k i) (hr : ∀ c ∈ rest.head?, c.isDigit = false) :
    scanReference (w ++ rest) = some (w, rest) := by
  cases h with
  | plain h =>
    obtain ⟨hne, hd, -⟩ := h.digits
    obtain ⟨ht, hdrop⟩ := takeWhile_append_head hd hr
    simp only [List.cons_append, scanReference, minusSign_digits hne hd, ht, hdrop]
    simp [hne]
  | negative h =>
    obtain ⟨hne, hd, -⟩ := h.digits
    obtain ⟨ht, hdrop⟩ := takeWhile_append_head hd hr
    simp only [List.cons_append, scanReference, minusSign, ht, hdrop]
    simp [hne]

theorem Reference.starts (h : Reference w k i) (rest : List Char) :
    scanReference (w ++ rest) ≠ none := by
  have key : ∀ {ds : List Char} {n : Nat}, Numeral ds n →
      (ds ++ rest).takeWhile Char.isDigit ≠ [] := by
    intro ds n h
    obtain ⟨hne, hd, -⟩ := h.digits
    rw [List.takeWhile_append_of_pos hd]
    simp [hne]
  cases h with
  | plain h =>
    obtain ⟨hne, hd, -⟩ := h.digits
    simp only [List.cons_append, scanReference, minusSign_digits hne hd]
    simpa using key h
  | negative h =>
    simp only [List.cons_append, scanReference, minusSign]
    simpa using key h

theorem reference_of_scan (h : scanReference s = some (w, rest)) : ∃ k i, Reference w k i := by
  unfold scanReference at h
  split at h
  · rename_i cs
    simp only [Option.ite_none_left_eq_some, Option.some.injEq, Prod.mk.injEq] at h
    obtain ⟨hne, rfl, -⟩ := h
    have hn := numeral_ofDigits hne fun c hc => List.all_eq_true.1 List.all_takeWhile c hc
    unfold minusSign at hn ⊢
    split at hn
    · exact ⟨_, _, .negative hn⟩
    · exact ⟨_, _, .plain hn⟩
  · cases h

theorem Reference.unescapable (h : Reference w k i) : ∀ c ∈ w, isEscapable c = false := by
  cases h with
  | plain h =>
    intro c hc
    rcases List.mem_cons.1 hc with rfl | hc
    · decide
    · exact isEscapable_digit (h.digits.2.1 c hc)
  | negative h =>
    intro c hc
    rcases List.mem_cons.1 hc with rfl | hc
    · decide
    · rcases List.mem_cons.1 hc with rfl | hc
      · decide
      · exact isEscapable_digit (h.digits.2.1 c hc)

theorem Reference.ne_nil (h : Reference w k i) : w ≠ [] := by
  cases h <;> simp

theorem Reference.index (h : Reference w k i) :
    referenceIndex? w = some (if maxReferenceDigits < k then none else some i) := by
  have hs : scanReference (w ++ []) = some (w, []) := h.scan fun c hc => nomatch hc
  rw [List.append_nil] at hs
  unfold referenceIndex?
  rw [hs]
  cases h with
  | plain h =>
    obtain ⟨hne, hd, rfl⟩ := h.digits
    have := minusSign_digits hne hd []
    rw [List.append_nil] at this
    simp only [this]
    split <;> simp
  | negative h =>
    obtain ⟨hne, hd, rfl⟩ := h.digits
    simp only [minusSign]
    split <;> simp

theorem referenceIndex?_none (h : ∀ k i, ¬ Reference w k i) : referenceIndex? w = none := by
  unfold referenceIndex?
  split
  · rename_i number hs
    obtain ⟨k, i, hr⟩ := reference_of_scan hs
    have happ := scanReference_append hs
    rw [List.append_nil] at happ
    exact absurd (happ ▸ hr) (h k i)
  · rfl

theorem reference_of_index {found : Option Int} (h : referenceIndex? w = some found) :
    ∃ k i, Reference w k i := by
  by_cases hr : ∃ k i, Reference w k i
  · exact hr
  · rw [referenceIndex?_none fun k i h' => hr ⟨k, i, h'⟩] at h
    cases h

theorem Reference.supported (h : Reference w k i) : isUnsupported w = false := by
  by_cases hs : w = ['_', '*']
  · subst hs
    have := h.index
    rw [show referenceIndex? ['_', '*'] = none by decide] at this
    cases this
  · simp [isUnsupported, hs]

theorem unescapable_unsupported : ∀ c ∈ ['_', '*'], isEscapable c = false := by
  intro c hc
  rcases List.mem_cons.1 hc with rfl | hc
  · decide
  · rw [List.mem_singleton.1 hc]
    decide

theorem Token.unescapable (h : Token w m) : ∀ c ∈ w, isEscapable c = false := by
  cases h with
  | empty => exact fun c hc => nomatch hc
  | reference h _ => exact h.unescapable
  | choice =>
    intro c hc
    rw [List.mem_singleton.1 hc]
    decide
  | number =>
    intro c hc
    rw [List.mem_singleton.1 hc]
    decide
  | name hn _ =>
    cases w with
    | nil => exact fun c hc => nomatch hc
    | cons d w =>
      simp only [isName, Bool.and_eq_true, List.all_eq_true] at hn
      intro c hc
      rcases List.mem_cons.1 hc with rfl | hc
      · exact isEscapable_nameStart hn.1
      · exact isEscapable_word (hn.2 c hc)

theorem scanReference_name (hr : ∀ p q k i, w = p ++ q → ¬ Reference p k i)
    (hc : isEscapable c = true) (s : List Char) : scanReference (w ++ c :: s) = none := by
  match h : scanReference (w ++ c :: s) with
  | none => rfl
  | some (p, q) =>
    obtain ⟨k, i, hp⟩ := reference_of_scan h
    rcases List.append_eq_append_iff.1 (scanReference_append h).symm with
      ⟨u, hu, hcs⟩ | ⟨u, hu, -⟩
    · cases u with
      | nil => exact absurd hp (hr p [] k i (by simpa using hu.symm))
      | cons d u =>
        -- the reference would hold the character that ends the name
        obtain ⟨rfl, -⟩ := List.cons.inj hcs
        have := hp.unescapable c (hu ▸ List.mem_append_right w List.mem_cons_self)
        rw [hc] at this
        cases this
    · exact absurd hp (hr p u k i hu)

theorem scanMethod_name (hn : isName w = true)
    (hr : ∀ p q k i, w = p ++ q → ¬ Reference p k i) (hc : isEscapable c = true)
    (s : List Char) : scanMethod (w ++ c :: s) = (w, c :: s) := by
  have hscan := scanReference_name hr hc s
  have hword : isWord c = false := by
    by_cases h : isWord c = true
    · rw [isEscapable_word h] at hc
      cases hc
    · simpa using h
  cases w with
  | nil => cases hn
  | cons d w =>
    simp only [isName, Bool.and_eq_true, List.all_eq_true] at hn
    obtain ⟨hd, hw⟩ := hn
    have hrest : ∀ e ∈ (c :: s).head?, isWord e = false := by
      rintro e ⟨⟩
      exact hword
    obtain ⟨ht, hdrop⟩ := takeWhile_append_head hw hrest
    have hmark : ¬ (d = '*' || d = '#') = true := by
      simp only [Bool.or_eq_true, decide_eq_true_eq]
      rintro (rfl | rfl) <;> exact absurd hd (by decide)
    unfold scanMethod
    rw [hscan]
    simp only [List.cons_append]
    split
    · rename_i h
      obtain ⟨-, h⟩ := List.cons.inj h
      -- a star does not follow: it is neither in a name nor does it end one
      cases w with
      | nil =>
        obtain ⟨rfl, -⟩ := List.cons.inj h
        exact absurd hc (by decide)
      | cons e w =>
        obtain ⟨rfl, -⟩ := List.cons.inj h
        exact absurd (hw '*' List.mem_cons_self) (by decide)
    · rename_i h
      obtain ⟨rfl, rfl⟩ := List.cons.inj h
      rw [if_neg hmark, if_pos hd, ht, hdrop]
    · rename_i h
      cases h

theorem Token.scan (h : Token w m) (hc : c = ',' ∨ c = ']') (s : List Char) :
    scanMethod (w ++ c :: s) = (w, c :: s) := by
  cases h with
  | empty => rcases hc with rfl | rfl <;> rfl
  | reference h _ =>
    have hs : scanReference (w ++ c :: s) = some (w, c :: s) := by
      refine h.scan ?_
      rintro d ⟨⟩
      rcases hc with rfl | rfl <;> decide
    unfold scanMethod
    rw [hs]
  | choice => rfl
  | number => rfl
  | name hn hr =>
    refine scanMethod_name hn hr ?_ s
    rcases hc with rfl | rfl <;> decide

theorem scanMethod_cases (h : scanMethod s = (w, rest)) :
    (∃ k i, Reference w k i) ∨ isUnsupported w = true ∨ w = [] ∨ w = ['*'] ∨ w = ['#'] ∨
      (isName w = true ∧ ∀ p q k i, w = p ++ q → ¬ Reference p k i) := by
  have happ := scanMethod_append s
  rw [h] at happ
  unfold scanMethod at h
  split at h
  · rename_i found hs
    subst h
    exact .inl (reference_of_scan hs)
  · rename_i hs
    split at h
    · obtain ⟨rfl, -⟩ := Prod.mk.inj h
      exact .inr (.inl rfl)
    · rename_i c cs _
      by_cases hc : (c = '*' || c = '#') = true
      · rw [if_pos hc] at h
        obtain ⟨rfl, -⟩ := Prod.mk.inj h
        simp only [Bool.or_eq_true, decide_eq_true_eq] at hc
        rcases hc with rfl | rfl <;> simp
      · rw [if_neg hc] at h
        by_cases hn : isNameStart c = true
        · rw [if_pos hn] at h
          obtain ⟨rfl, -⟩ := Prod.mk.inj h
          refine .inr (.inr (.inr (.inr (.inr ⟨?_, ?_⟩))))
          · simp only [isName, hn, Bool.true_and]
            exact List.all_takeWhile
          · intro p q k i hpq hp
            refine hp.starts (q ++ rest) ?_
            rw [← List.append_assoc, ← hpq]
            exact happ ▸ hs
        · rw [if_neg hn] at h
          obtain ⟨rfl, -⟩ := Prod.mk.inj h
          simp
    · obtain ⟨rfl, -⟩ := Prod.mk.inj h
      simp

theorem Token.method (h : Token w m) (left : Nat) : method w left = .ok m := by
  cases h with
  | empty => rfl
  | reference h hk =>
    unfold Pattern.method
    rw [h.index, if_neg (Nat.not_lt.2 hk)]
    simp [h.supported]
  | choice => rfl
  | number => rfl
  | name hn hr =>
    have hi : referenceIndex? w = none :=
      referenceIndex?_none fun k i h => hr w [] k i (List.append_nil w).symm h
    have hu : isUnsupported w = false := by
      by_cases h : w = ['_', '*']
      · subst h
        exact absurd hn (by decide)
      · simp [isUnsupported, h]
    have hname : methodName w = String.ofList w := by
      unfold methodName
      rw [if_neg, if_neg]
      all_goals
        rintro rfl
        exact absurd hn (by decide)
    have hne : w ≠ [] := by
      rintro rfl
      cases hn
    unfold Pattern.method
    simp [hi, hu, hname, hne]

theorem token_of_method {left : Nat} (hs : scanMethod s = (w, rest))
    (h : method w left = .ok m) : Token w m := by
  unfold method at h
  split at h
  · cases h
  · rename_i hu
    rcases hi : referenceIndex? w with _ | _ | i <;> simp only [hi] at h
    · -- no reference: the token is a mark, a name or empty
      rcases scanMethod_cases hs with ⟨k, i, hr⟩ | hu' | rfl | rfl | rfl | ⟨hn, hr⟩
      · rw [hr.index] at hi
        cases hi
      · exact absurd hu' hu
      · cases h
        exact .empty
      · cases h
        exact .choice
      · cases h
        exact .number
      · have ht := Token.name hn hr
        have hm := ht.method 0
        unfold method at hm
        rw [if_neg hu] at hm
        simp only [hi] at hm
        rw [h] at hm
        cases hm
        exact ht
    · cases h
    · obtain ⟨k, j, hr⟩ := reference_of_index hi
      rw [hr.index] at hi
      cases h
      split at hi
      · cases hi
      · rename_i hk
        cases hi
        exact .reference hr (Nat.not_lt.1 hk)

theorem Chunk.spells {final : Bool} (h : Chunk .argument final w node) :
    ∃ t, Spells endsArgument false w t := by
  cases h with
  | reference h _ => exact ⟨w, spells_self escapes_endsArgument h.unescapable⟩
  | text _ h _ _ => exact ⟨_, h⟩

theorem Chunk.argumentText {final : Bool} (h : Chunk .argument final w node) (left : Nat) :
    argumentText w left = .ok [node] := by
  unfold Pattern.argumentText
  cases h with
  | reference h hk =>
    rw [if_neg h.ne_nil, h.index, if_neg (Nat.not_lt.2 hk)]
  | text hne h hr hs =>
    rw [if_neg hne, referenceIndex?_none hr, h.decode_eq]
    simp [isUnsupported, hs]

theorem chunk_of_argumentText {left : Nat} {found : List Node} (hne : w ≠ [])
    (hs : Spells endsArgument false w t) (h : argumentText w left = .ok found) :
    ∃ node, found = [node] ∧ ∀ final, Chunk .argument final w node := by
  unfold argumentText at h
  rw [if_neg hne] at h
  by_cases hr : ∃ k i, Reference w k i
  · obtain ⟨k, i, hr⟩ := hr
    rw [hr.index] at h
    by_cases hk : maxReferenceDigits < k
    · rw [if_pos hk] at h
      cases h
    · rw [if_neg hk] at h
      cases h
      exact ⟨_, rfl, fun _ => .reference hr (Nat.not_lt.1 hk)⟩
  · have hr' : ∀ k i, ¬ Reference w k i := fun k i h => hr ⟨k, i, h⟩
    rw [referenceIndex?_none hr', hs.decode_eq] at h
    by_cases hu : w = ['_', '*']
    · simp [isUnsupported, hu] at h
    · simp only [isUnsupported, hu, decide_false, Bool.false_eq_true, if_false] at h
      cases h
      exact ⟨_, rfl, fun _ => .text hne hs hr' hu⟩

end Phrasebook.Pattern
