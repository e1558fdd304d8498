import Mathlib.Tactic.SplitIfs
import Phrasebook.Number.Numeral
import Phrasebook.Proofs.Pattern.Tokens

/-!
# The grammar of numerals

The texts that denote finite decimals are given by a grammar, with the coefficient and the exponent
that each of them has. The reader accepts these texts and no others, as long as the exponent is in
range, and gives them what the grammar gives them.
-/

namespace Phrasebook.Numeral

inductive Sign : List Char → Bool → Prop
  | absent : Sign [] false
  | plus : Sign ['+'] false
  | minus : Sign ['-'] true

/-- Digits, with or without a point: the number that they denote together, and how many of them stand
behind the point. -/
inductive Magnitude : List Char → Nat → Nat → Prop
  | whole {ds c} (h : Pattern.Numeral ds c) : Magnitude ds c 0
  | pointed {ds fs c} (h : Pattern.Numeral (ds ++ fs) c) : Magnitude (ds ++ '.' :: fs) c fs.length

inductive Power : List Char → Int → Prop
  | absent : Power [] 0
  | present {letter s negative ds n} (hletter : letter = 'e' ∨ letter = 'E') (hs : Sign s negative)
      (hd : Pattern.Numeral ds n) : Power (letter :: (s ++ ds)) (if negative then -n else n)

/-- A numeral in plain characters: its sign, its coefficient and its exponent. -/
inductive Written : List Char → Bool → Nat → Int → Prop
  | mk {s m p negative c k e} (hs : Sign s negative) (hm : Magnitude m c k) (hp : Power p e) :
      Written (s ++ (m ++ p)) negative c (e - k)

/-- A numeral between blanks, with underscores anywhere in it and in digits of any script. -/
inductive Spells : List Char → Bool → Nat → Int → Prop
  | mk {a w b negative c e} (ha : ∀ x ∈ a, Text.isBlank x = true)
      (hb : ∀ x ∈ b, Text.isBlank x = true)
      (h : Written ((w.filter (· ≠ '_')).map plain) negative c e) :
      Spells (a ++ (w ++ b)) negative c e

/-- The exponents that a decimal may have: neither its own nor that of its first digit is out of
range. -/
structure Fits (c : Nat) (e : Int) : Prop where
  least : smallestExponent ≤ e
  greatest : (if c = 0 then e else e + (Nat.toDigits 10 c).length - 1) ≤ largestExponent

instance (c : Nat) (e : Int) : Decidable (Fits c e) :=
  decidable_of_iff (_ ∧ _) ⟨fun h => ⟨h.1, h.2⟩, fun h => ⟨h.1, h.2⟩⟩

def isWritten (x : Char) : Bool :=
  x.isDigit || x = '.' || x = 'e' || x = 'E' || x = '+' || x = '-'

variable {a b m p s w ds fs rest cs : List Char} {x : Char} {negative : Bool} {c k n : Nat} {e : Int}
  {d : Decimal}

section Characters

theorem Sign.isWritten (h : Sign s negative) : ∀ x ∈ s, isWritten x = true := by
  cases h with
  | absent => exact fun _ hx => absurd hx List.not_mem_nil
  | plus => exact List.forall_mem_singleton.2 rfl
  | minus => exact List.forall_mem_singleton.2 rfl

theorem isWritten_digit (h : x.isDigit = true) : isWritten x = true := by
  simp [isWritten, h]

theorem isWritten_numeral (h : Pattern.Numeral ds n) : ∀ x ∈ ds, isWritten x = true :=
  fun x hx => isWritten_digit (h.digits.2.1 x hx)

theorem Magnitude.isWritten (h : Magnitude m c k) : ∀ x ∈ m, isWritten x = true := by
  cases h with
  | whole h => exact isWritten_numeral h
  | pointed h =>
    have hdigits := isWritten_numeral h
    rw [List.forall_mem_append] at hdigits ⊢
    exact ⟨hdigits.1, List.forall_mem_cons.2 ⟨by decide, hdigits.2⟩⟩

theorem Power.isWritten (h : Power p e) : ∀ x ∈ p, isWritten x = true := by
  cases h with
  | absent => exact fun _ hx => absurd hx List.not_mem_nil
  | present hletter hs hd =>
    refine List.forall_mem_cons.2 ⟨?_, List.forall_mem_append.2 ⟨hs.isWritten, isWritten_numeral hd⟩⟩
    rcases hletter with rfl | rfl <;> decide

theorem Written.isWritten (h : Written w negative c e) : ∀ x ∈ w, isWritten x = true := by
  obtain ⟨hs, hm, hp⟩ := h
  exact List.forall_mem_append.2
    ⟨hs.isWritten, List.forall_mem_append.2 ⟨hm.isWritten, hp.isWritten⟩⟩

theorem Magnitude.ne_nil (h : Magnitude m c k) : m ≠ [] := by
  cases h with
  | whole h => exact h.digits.1
  | pointed h => exact List.append_ne_nil_of_right_ne_nil _ (List.cons_ne_nil _ _)

theorem Written.ne_nil (h : Written w negative c e) : w ≠ [] := by
  obtain ⟨hs, hm, hp⟩ := h
  exact List.append_ne_nil_of_right_ne_nil _ (List.append_ne_nil_of_left_ne_nil hm.ne_nil _)

theorem digitValue?_blank (h : Text.isBlank x = true) : Text.digitValue? x = none := by
  have hdigits : ∀ start ∈ Text.digitZeros, ∀ d < 10,
      Text.isBlank (Char.ofNat (start + d)) = false := by decide +kernel
  rw [Text.digitValue?, Option.map_eq_none_iff, List.find?_eq_none]
  intro start hstart hrange
  simp only [Bool.and_eq_true, decide_eq_true_eq] at hrange
  have hx := hdigits start hstart (x.toNat - start) (by omega)
  rw [show start + (x.toNat - start) = x.toNat by omega, Char.ofNat_toNat, h] at hx
  cases hx

theorem plain_blank (h : Text.isBlank x = true) : plain x = x := by
  rw [plain, digitValue?_blank h]

theorem forall_digit {P : Char → Prop} (h : ∀ d < 10, P (Char.ofNat (48 + d)))
    (hx : x.isDigit = true) : P x := by
  obtain ⟨hlow, hhigh⟩ : 48 ≤ x.toNat ∧ x.toNat ≤ 57 := Char.isDigit_iff_toNat.1 hx
  have hd := h (x.toNat - 48) (by omega)
  rwa [show 48 + (x.toNat - 48) = x.toNat by omega, Char.ofNat_toNat] at hd

theorem isDigit_blank (h : Text.isBlank x = true) : x.isDigit = false := by
  rw [← Bool.not_eq_true]
  intro hx
  have hblank := forall_digit (P := fun x => Text.isBlank x = false) (by decide) hx
  exact Bool.false_ne_true (hblank.symm.trans h)

theorem isWritten_blank (h : Text.isBlank x = true) : isWritten (plain x) = false := by
  rw [plain_blank h, isWritten, isDigit_blank h, ← Bool.not_eq_true]
  intro hx
  simp only [Bool.or_eq_true, decide_eq_true_eq, Bool.false_eq_true, false_or] at hx
  rcases hx with (((rfl | rfl) | rfl) | rfl) | rfl <;> cases h

theorem plain_written (h : isWritten x = true) : x ≠ '_' ∧ plain x = x := by
  simp only [isWritten, Bool.or_eq_true, decide_eq_true_eq] at h
  rcases h with ((((hx | rfl) | rfl) | rfl) | rfl) | rfl
  · exact forall_digit (P := fun x => x ≠ '_' ∧ plain x = x) (by decide) hx
  all_goals exact ⟨by decide, by decide⟩

theorem Written.spells (h : Written w negative c e) : Spells w negative c e := by
  have hfilter : w.filter (· ≠ '_') = w :=
    List.filter_eq_self.2 fun x hx => decide_eq_true (plain_written (h.isWritten x hx)).1
  have hplain : w.map plain = w :=
    (List.map_congr_left fun x hx => (plain_written (h.isWritten x hx)).2).trans (List.map_id' w)
  have hblank : ∀ x ∈ ([] : List Char), Text.isBlank x = true := by simp
  have hspells : Spells ([] ++ (w ++ [])) negative c e :=
    .mk hblank hblank (by rwa [hfilter, hplain])
  rwa [List.nil_append, List.append_nil] at hspells

theorem Written.isWritten_plain (h : Written ((w.filter (· ≠ '_')).map plain) negative c e)
    (hx : x ∈ w) (hscore : x ≠ '_') : Numeral.isWritten (plain x) = true :=
  h.isWritten _ (List.mem_map_of_mem (List.mem_filter.2 ⟨hx, by simpa using hscore⟩))

def mayStand (x : Char) : Bool := Text.isBlank x || x = '_' || isWritten (plain x)

theorem Spells.mayStand (h : Spells cs negative c e) : ∀ x ∈ cs, mayStand x = true := by
  obtain ⟨ha, hb, h⟩ := h
  simp only [Numeral.mayStand, Bool.or_eq_true, decide_eq_true_eq, List.mem_append]
  rintro x (hx | hx | hx)
  · exact .inl (.inl (ha x hx))
  · by_cases hscore : x = '_'
    · exact .inl (.inr hscore)
    · exact .inr (h.isWritten_plain hx hscore)
  · exact .inl (.inl (hb x hx))

end Characters

section Reading

theorem sign_append (h : Sign s negative) (hr : ∀ x ∈ rest.head?, x ≠ '-' ∧ x ≠ '+') :
    sign (s ++ rest) = (negative, rest) := by
  cases h with
  | absent =>
    cases rest with
    | nil => rfl
    | cons x rest =>
      obtain ⟨hminus, hplus⟩ := hr x rfl
      simp [sign, hminus, hplus]
  | plus => rfl
  | minus => rfl

theorem sign_cut (cs : List Char) : ∃ s, Sign s (sign cs).1 ∧ cs = s ++ (sign cs).2 := by
  unfold sign
  split
  · exact ⟨_, .minus, rfl⟩
  · exact ⟨_, .plus, rfl⟩
  · exact ⟨_, .absent, rfl⟩

theorem not_sign_of_isDigit (h : x.isDigit = true) : x ≠ '-' ∧ x ≠ '+' := by
  constructor <;> rintro rfl <;> cases h

theorem digits_head (h : Pattern.Numeral ds n) : ∀ x ∈ ds.head?, x.isDigit = true :=
  fun x hx => h.digits.2.1 x (List.mem_of_mem_head? hx)

theorem exponent_eq_some_iff : exponent cs = some e ↔ Power cs e := by
  constructor
  · intro h
    cases cs with
    | nil =>
      obtain rfl : 0 = e := by simpa [exponent] using h
      exact .absent
    | cons x cs =>
      obtain ⟨s, hs, hcut⟩ := sign_cut cs
      simp only [exponent, Option.ite_none_right_eq_some, Option.some.injEq] at h
      obtain ⟨hx, ⟨hne, hall⟩, rfl⟩ := h
      have hd := Pattern.numeral_ofDigits hne (List.all_eq_true.1 hall)
      nth_rewrite 1 [hcut]
      exact .present hx hs hd
  · intro h
    cases h with
    | absent => rfl
    | present hletter hs hd =>
      have hsign := sign_append hs fun x hx => not_sign_of_isDigit (digits_head hd x hx)
      obtain ⟨hne, hdigits, rfl⟩ := hd.digits
      simp only [exponent, if_pos hletter, hsign, List.all_eq_true.2 hdigits, hne, ne_eq,
        not_false_eq_true, and_self, if_true]

theorem Power.head (h : Power p e) : ∀ x ∈ p.head?, x.isDigit = false ∧ x ≠ '.' := by
  cases h with
  | absent => exact fun _ hx => absurd hx (by simp)
  | present hletter hs hd =>
    rintro x ⟨⟩
    rcases hletter with rfl | rfl <;> decide

theorem finite_whole (hd : ∀ x ∈ ds, x.isDigit = true)
    (hr : ∀ x ∈ rest.head?, x.isDigit = false ∧ x ≠ '.') :
    finite negative (ds ++ rest) =
      if ds = [] then none else
        (exponent rest).bind fun e => inRange negative (Text.ofDigits ds) e := by
  obtain ⟨htake, hdrop⟩ := Pattern.takeWhile_append_head hd fun x hx => (hr x hx).1
  simp only [finite, htake, hdrop]
  cases rest with
  | nil => simp [Option.bind_eq_bind]
  | cons x rest =>
    have hx : x ≠ '.' := (hr x rfl).2
    simp [hx, Option.bind_eq_bind]

theorem finite_pointed (hd : ∀ x ∈ ds, x.isDigit = true) (hf : ∀ x ∈ fs, x.isDigit = true)
    (hr : ∀ x ∈ rest.head?, x.isDigit = false) :
    finite negative (ds ++ '.' :: (fs ++ rest)) =
      if ds ++ fs = [] then none else
        (exponent rest).bind fun e =>
          inRange negative (Text.ofDigits (ds ++ fs)) (e - fs.length) := by
  have hpoint : ∀ x ∈ ('.' :: (fs ++ rest)).head?, x.isDigit = false := by
    rintro x ⟨⟩
    rfl
  obtain ⟨htake, hdrop⟩ := Pattern.takeWhile_append_head hd hpoint
  obtain ⟨hfraction, hrest⟩ := Pattern.takeWhile_append_head hf hr
  simp only [finite, htake, hdrop, hfraction, hrest]
  rfl

theorem finite_append (hm : Magnitude m c k) (hp : Power p e) :
    finite negative (m ++ p) = inRange negative c (e - k) := by
  cases hm with
  | whole h =>
    obtain ⟨hne, hdigits, rfl⟩ := h.digits
    rw [finite_whole hdigits hp.head, if_neg hne, exponent_eq_some_iff.2 hp]
    simp
  | @pointed ds fs _ h =>
    obtain ⟨hne, hdigits, rfl⟩ := h.digits
    obtain ⟨hds, hfs⟩ := List.forall_mem_append.1 hdigits
    rw [List.append_assoc, List.cons_append, finite_pointed hds hfs fun x hx => (hp.head x hx).1,
      if_neg hne, exponent_eq_some_iff.2 hp]
    rfl

theorem digits_cut (cs : List Char) : ∃ ds rest, cs = ds ++ rest ∧
    (∀ x ∈ ds, x.isDigit = true) ∧ ∀ x ∈ rest.head?, x.isDigit = false := by
  refine ⟨cs.takeWhile Char.isDigit, cs.dropWhile Char.isDigit,
    List.takeWhile_append_dropWhile.symm, List.all_eq_true.1 List.all_takeWhile, fun x hx => ?_⟩
  simpa [Option.mem_def.1 hx] using List.head?_dropWhile_not Char.isDigit cs

theorem finite_cut (h : finite negative cs = some d) :
    ∃ m c k p e, cs = m ++ p ∧ Magnitude m c k ∧ Power p e ∧ inRange negative c (e - k) = some d := by
  obtain ⟨ds, rest, rfl, hds, hrest⟩ := digits_cut cs
  by_cases hpoint : ∃ t, rest = '.' :: t
  · obtain ⟨t, rfl⟩ := hpoint
    obtain ⟨fs, p, rfl, hfs, hp⟩ := digits_cut t
    rw [finite_pointed hds hfs hp, Option.ite_none_left_eq_some] at h
    obtain ⟨hne, h⟩ := h
    obtain ⟨e, he, hd⟩ := Option.bind_eq_some_iff.1 h
    have hnumeral := Pattern.numeral_ofDigits hne (List.forall_mem_append.2 ⟨hds, hfs⟩)
    exact ⟨ds ++ '.' :: fs, _, _, p, e, by simp, .pointed hnumeral, exponent_eq_some_iff.1 he, hd⟩
  · rw [finite_whole hds fun x hx => ⟨hrest x hx, ?_⟩, Option.ite_none_left_eq_some] at h
    · obtain ⟨hne, h⟩ := h
      obtain ⟨e, he, hd⟩ := Option.bind_eq_some_iff.1 h
      refine ⟨ds, _, 0, rest, e, rfl, .whole (Pattern.numeral_ofDigits hne hds),
        exponent_eq_some_iff.1 he, ?_⟩
      simpa using hd
    · rintro rfl
      obtain ⟨t, rfl⟩ := List.head?_eq_some_iff.1 hx
      exact hpoint ⟨t, rfl⟩

theorem inRange_eq_some_iff :
    inRange negative c e = some d ↔ Fits c e ∧ d = .finite negative c e := by
  simp only [inRange, Option.ite_none_right_eq_some, Option.some.injEq]
  constructor
  · rintro ⟨⟨hleast, hgreatest⟩, rfl⟩
    exact ⟨⟨hleast, hgreatest⟩, rfl⟩
  · rintro ⟨⟨hleast, hgreatest⟩, rfl⟩
    exact ⟨⟨hleast, hgreatest⟩, rfl⟩

theorem word_ne_finite (negative' : Bool) (cs : List Char) :
    word negative' cs ≠ some (.finite negative c e) := by
  simp only [word]
  split_ifs <;> simp

theorem strip_append (ha : ∀ x ∈ a, Text.isBlank x = true) (hb : ∀ x ∈ b, Text.isBlank x = true)
    (hne : w ≠ []) (hw : ∀ x ∈ w, Text.isBlank x = false) : Text.strip (a ++ (w ++ b)) = w := by
  have hfirst : ∀ x ∈ (w ++ b).head?, Text.isBlank x = false := by
    obtain ⟨y, w, rfl⟩ := List.exists_cons_of_ne_nil hne
    rintro _ ⟨⟩
    exact hw y List.mem_cons_self
  have hlast : ∀ x ∈ w.reverse.head?, Text.isBlank x = false :=
    fun x hx => hw x (List.mem_reverse.1 (List.mem_of_mem_head? hx))
  have hback : ∀ x ∈ b.reverse, Text.isBlank x = true := fun x hx => hb x (List.mem_reverse.1 hx)
  rw [Text.strip, (Pattern.takeWhile_append_head ha hfirst).2, List.reverse_append,
    (Pattern.takeWhile_append_head hback hlast).2, List.reverse_reverse]

theorem strip_cut (cs : List Char) : ∃ a b, cs = a ++ (Text.strip cs ++ b) ∧
    (∀ x ∈ a, Text.isBlank x = true) ∧ ∀ x ∈ b, Text.isBlank x = true := by
  refine ⟨cs.takeWhile Text.isBlank,
    ((cs.dropWhile Text.isBlank).reverse.takeWhile Text.isBlank).reverse, ?_,
    List.all_eq_true.1 List.all_takeWhile, fun x hx => ?_⟩
  · rw [Text.strip, ← List.reverse_append, List.takeWhile_append_dropWhile, List.reverse_reverse,
      List.takeWhile_append_dropWhile]
  · exact List.all_eq_true.1 List.all_takeWhile x (List.mem_reverse.1 hx)

theorem Magnitude.head (h : Magnitude m c k) : ∀ x ∈ (m ++ p).head?, x ≠ '-' ∧ x ≠ '+' := by
  cases h with
  | whole h =>
    obtain ⟨y, m, rfl⟩ := List.exists_cons_of_ne_nil h.digits.1
    rintro _ ⟨⟩
    exact not_sign_of_isDigit (digits_head h y rfl)
  | @pointed ds fs _ h =>
    cases ds with
    | nil =>
      rintro x ⟨⟩
      decide
    | cons x ds =>
      rintro _ ⟨⟩
      exact not_sign_of_isDigit (h.digits.2.1 x (List.mem_cons_self))

theorem strip_written (ha : ∀ x ∈ a, Text.isBlank x = true) (hb : ∀ x ∈ b, Text.isBlank x = true)
    (h : Written ((w.filter (· ≠ '_')).map plain) negative c e) :
    Text.strip (a ++ (w ++ b)) = w := by
  refine strip_append ha hb ?_ fun x hx => ?_
  · rintro rfl
    exact h.ne_nil rfl
  · by_cases hscore : x = '_'
    · subst hscore
      rfl
    · rw [← Bool.not_eq_true]
      intro hblank
      exact Bool.false_ne_true ((isWritten_blank hblank).symm.trans (h.isWritten_plain hx hscore))

/-- A text is read as a finite decimal if and only if the grammar has it and the exponent is in
range. -/
theorem read_eq_finite_iff {t : String} :
    read t = some (.finite negative c e) ↔ Spells t.toList negative c e ∧ Fits c e := by
  constructor
  · intro h
    obtain ⟨a, b, hcut, ha, hb⟩ := strip_cut t.toList
    obtain ⟨s, hs, hsign⟩ := sign_cut (((Text.strip t.toList).filter (· ≠ '_')).map plain)
    simp only [read, Option.or_eq_some_iff, word_ne_finite, and_false, or_false] at h
    obtain ⟨m, c, k, p, e, hmp, hm, hp, hrange⟩ := finite_cut h
    obtain ⟨hfits, hd⟩ := inRange_eq_some_iff.1 hrange
    cases hd
    have hwritten := Written.mk hs hm hp
    rw [← hmp, ← hsign] at hwritten
    have hspells := Spells.mk ha hb hwritten
    rw [← hcut] at hspells
    exact ⟨hspells, hfits⟩
  · rintro ⟨h, hfits⟩
    rw [read]
    generalize t.toList = cs at h
    obtain ⟨ha, hb, h⟩ := h
    rw [strip_written ha hb h]
    generalize (List.filter _ _).map plain = cs at h
    obtain ⟨hs, hm, hp⟩ := h
    simp only [sign_append hs hm.head, finite_append hm hp, inRange_eq_some_iff.2 ⟨hfits, rfl⟩]
    rfl

end Reading

end Phrasebook.Numeral
