import Mathlib.Algebra.Group.Nat.Defs
import Mathlib.Tactic.SplitIfs
import Phrasebook.Text.Literal

/-!
# Reading literals

A reader of the text between two quote marks, and that it takes back what was written with escapes,
between marks of either kind. It stops at the mark that ends the text, so nothing that follows a
literal can change what is read.
-/

namespace Phrasebook.Text

variable {mark c : Char} {n width : Nat} {s t w ds : List Char}

def hexValue? (c : Char) : Option Nat :=
  if c.isDigit then some (c.toNat - '0'.toNat)
  else if 'a' ≤ c ∧ c ≤ 'f' then some (c.toNat - 'a'.toNat + 10)
  else if 'A' ≤ c ∧ c ≤ 'F' then some (c.toNat - 'A'.toNat + 10)
  else none

def hexNumber? (ds : List Char) : Option Nat :=
  ds.foldlM (fun n c => (hexValue? c).map (16 * n + ·)) 0

def letterEscapes : List (Char × Char) :=
  [('b', '\x08'), ('f', '\x0c'), ('n', '\n'), ('r', '\r'), ('t', '\t'), ('v', '\x0b'),
   ('"', '"'), ('\'', '\''), ('\\', '\\')]

def numberWidths : List (Char × Nat) := [('x', 2), ('u', 4), ('U', 8)]

/-- Reads what stands behind a backslash. A numbered escape has exactly as many digits as its letter
says, and surrogates are no characters. -/
def readEscape : List Char → Option (Char × List Char)
  | [] => none
  | c :: s =>
    match letterEscapes.lookup c with
    | some d => some (d, s)
    | none => do
      let width ← numberWidths.lookup c
      let n ← hexNumber? (s.take width)
      if width ≤ s.length ∧ n.isValidChar then some (Char.ofNat n, s.drop width) else none

/-- Characters that cannot stand in a literal unescaped: the null character and line ends. -/
def isRefused (c : Char) : Bool := c = '\x00' || c = '\n' || c = '\r'

theorem refused_cases (h : isRefused c = true) : c = '\x00' ∨ c = '\n' ∨ c = '\r' := by
  simpa [isRefused, or_assoc] using h

def readChar (c : Char) (s : List Char) : Option (Char × List Char) :=
  if c = '\\' then readEscape s else if isRefused c then none else some (c, s)

theorem length_readEscape {r : List Char} (h : readEscape s = some (c, r)) :
    r.length ≤ s.length := by
  cases s with
  | nil => cases h
  | cons a s =>
    rw [readEscape] at h
    cases hl : letterEscapes.lookup a with
    | some d =>
      rw [hl] at h
      cases h
      exact Nat.le_succ _
    | none =>
      rw [hl] at h
      simp only [Option.bind_eq_bind, Option.bind_eq_some_iff] at h
      obtain ⟨width, -, n, -, h⟩ := h
      obtain ⟨-, h⟩ := Option.ite_none_right_eq_some.1 h
      cases h
      rw [List.length_drop, List.length_cons]
      omega

theorem length_readChar {d : Char} {r : List Char} (h : readChar c s = some (d, r)) :
    r.length ≤ s.length := by
  unfold readChar at h
  split at h
  · exact length_readEscape h
  · split at h
    · cases h
    · cases h
      exact Nat.le_refl _

def readBody (mark : Char) : List Char → Option (List Char × List Char)
  | [] => none
  | c :: s =>
    if c = mark then some ([], s)
    else
      match h : readChar c s with
      | none => none
      | some (d, r) =>
        have : r.length < s.length + 1 := Nat.lt_succ_of_le (length_readChar h)
        (readBody mark r).map fun (t, rest) => (d :: t, rest)
termination_by s => s.length

/-- Reads a literal from the start of a text: its characters and what follows it. One quote mark
stands on each side, either a double or a single one. -/
def readLiteral : List Char → Option (List Char × List Char)
  | [] => none
  | mark :: s => if mark = '"' ∨ mark = '\'' then readBody mark s else none

/-- The text `w` stands for `c` between such marks, whatever follows. -/
def Writes (mark : Char) (w : List Char) (c : Char) : Prop :=
  ∃ a u, w = a :: u ∧ a ≠ mark ∧ ∀ s, readChar a (u ++ s) = some (c, s)

theorem readBody_step {a d : Char} {r : List Char} (ha : a ≠ mark)
    (h : readChar a s = some (d, r)) :
    readBody mark (a :: s) = (readBody mark r).map fun (t, rest) => (d :: t, rest) := by
  rw [readBody, if_neg ha]
  split
  · rename_i hn
    rw [h] at hn
    cases hn
  · rename_i hs
    rw [h] at hs
    cases hs
    rfl

theorem readBody_mark (mark : Char) (s : List Char) : readBody mark (mark :: s) = some ([], s) := by
  rw [readBody, if_pos rfl]

theorem Writes.read (h : Writes mark w c) (s : List Char) :
    readBody mark (w ++ s) = (readBody mark s).map fun (t, rest) => (c :: t, rest) := by
  obtain ⟨a, u, rfl, ha, hread⟩ := h
  exact readBody_step ha (hread s)

theorem readBody_flatMap {e : Char → List Char} (h : ∀ c, Writes mark (e c) c) (t r : List Char) :
    readBody mark (t.flatMap e ++ mark :: r) = some (t, r) := by
  induction t with
  | nil => exact readBody_mark mark r
  | cons c t ih =>
    rw [List.flatMap_cons, List.append_assoc, (h c).read, ih]
    rfl

section Numbers

theorem hexValue?_digitChar : ∀ d < 16, hexValue? (Nat.digitChar d) = some d := by decide

theorem hexNumber?_concat (ds : List Char) (c : Char) : hexNumber? (ds ++ [c]) =
    (hexNumber? ds).bind fun n => (hexValue? c).map (16 * n + ·) := by
  simp [hexNumber?, List.foldlM_append]

theorem hexNumber?_zeros (k : Nat) : hexNumber? (List.replicate k '0') = some 0 := by
  induction k with
  | zero => rfl
  | succ k ih =>
    rw [List.replicate_succ', hexNumber?_concat, ih]
    rfl

theorem hexNumber?_toDigits (k n : Nat) :
    hexNumber? (List.replicate k '0' ++ Nat.toDigits 16 n) = some n := by
  induction n using Nat.strongRecOn with
  | _ n ih =>
    by_cases hn : n < 16
    · rw [Nat.toDigits_of_lt_base hn, hexNumber?_concat, hexNumber?_zeros,
        hexValue?_digitChar n hn]
      exact congrArg some (Nat.zero_add n)
    · rw [Nat.toDigits_of_base_le (by decide) (Nat.not_lt.1 hn), ← List.append_assoc,
        hexNumber?_concat, ih _ (Nat.div_lt_self (by omega) (by decide)),
        hexValue?_digitChar _ (Nat.mod_lt _ (by decide))]
      exact congrArg some (Nat.div_add_mod n 16)

theorem hexNumber?_hex (width n : Nat) : hexNumber? (hex width n) = some n :=
  hexNumber?_toDigits _ n

theorem length_hex (hw : 0 < width) (hn : n < 16 ^ width) : (hex width n).length = width := by
  have := (Nat.length_toDigits_le_iff (b := 16) (by decide) hw).2 hn
  rw [hex, List.length_append, List.length_replicate]
  omega

theorem readEscape_number {letter : Char} (hl : letterEscapes.lookup letter = none)
    (hw : numberWidths.lookup letter = some width) (hpos : 0 < width)
    (hc : c.toNat < 16 ^ width) (s : List Char) :
    readEscape (letter :: (hex width c.toNat ++ s)) = some (c, s) := by
  have hlen := length_hex hpos hc
  rw [readEscape, hl]
  simp only [hw, Option.bind_eq_bind, Option.bind_some, List.take_left' hlen, hexNumber?_hex,
    List.drop_left' hlen, Char.ofNat_toNat]
  refine if_pos ⟨?_, c.valid⟩
  rw [List.length_append, hlen]
  exact Nat.le_add_right ..

end Numbers

section Escapes

theorem writes_escape {u : List Char} (hm : mark ≠ '\\')
    (h : ∀ s, readEscape (u ++ s) = some (c, s)) : Writes mark ('\\' :: u) c :=
  ⟨'\\', u, rfl, hm.symm, fun s => by rw [readChar, if_pos rfl, h]⟩

theorem writes_self (hm : c ≠ mark) (hb : c ≠ '\\') (hr : isRefused c = false) :
    Writes mark [c] c :=
  ⟨c, [], rfl, hm, fun s => by rw [readChar, if_neg hb, if_neg (by simp [hr])]; rfl⟩

theorem writes_letter {letter : Char} (hm : mark ≠ '\\')
    (h : letterEscapes.lookup letter = some c) : Writes mark ['\\', letter] c :=
  writes_escape hm fun s => by
    rw [List.cons_append, readEscape, h]
    rfl

theorem writes_numbered (hm : mark ≠ '\\') (c : Char) : Writes mark (numbered c) c := by
  have hvalid : c.toNat.isValidChar := c.valid
  have hmax : c.toNat < 16 ^ 8 := by
    unfold Nat.isValidChar at hvalid
    omega
  unfold numbered
  dsimp only
  split
  · rename_i h
    exact writes_escape hm (readEscape_number rfl rfl (by decide) (Nat.lt_succ_of_le h))
  · split
    · rename_i h
      exact writes_escape hm (readEscape_number rfl rfl (by decide) (Nat.lt_succ_of_le h))
    · exact writes_escape hm (readEscape_number rfl rfl (by decide) hmax)

theorem ne_of_not_named (h : namedEscapes.lookup c = none) :
    c ≠ '"' ∧ c ≠ '\\' ∧ c ≠ '\u2028' ∧ c ≠ '\u2029' := by
  have hne : ∀ p ∈ namedEscapes, c ≠ p.1 := fun p hp => by
    simpa using List.lookup_eq_none_iff.1 h p hp
  exact ⟨hne ('"', ['\\', '"']) (by decide), hne ('\\', ['\\', '\\']) (by decide),
    hne ('\u2028', "\\u2028".toList) (by decide), hne ('\u2029', "\\u2029".toList) (by decide)⟩

theorem numbered_control (h : isControl c = true) : numbered c = '\\' :: 'x' :: hex 2 c.toNat := by
  simp only [isControl, Bool.or_eq_true, Bool.and_eq_true, decide_eq_true_eq] at h
  exact if_pos (by omega)

theorem writes_named : ∀ p ∈ namedEscapes, Writes '"' p.2 p.1 := by
  simp only [namedEscapes, List.forall_mem_cons]
  refine ⟨writes_letter (by decide) rfl, writes_letter (by decide) rfl,
    writes_letter (by decide) rfl, writes_letter (by decide) rfl, writes_letter (by decide) rfl,
    writes_letter (by decide) rfl, writes_numbered (by decide) '\u2028',
    writes_numbered (by decide) '\u2029', writes_letter (by decide) rfl,
    writes_letter (by decide) rfl, by simp⟩

theorem writes_escapeLiteral (c : Char) : Writes '"' (escapeLiteral c) c := by
  unfold escapeLiteral
  cases hl : namedEscapes.lookup c with
  | some e =>
    obtain ⟨l, l', h, -⟩ := List.lookup_eq_some_iff.1 hl
    exact writes_named (c, e) (by rw [h]; simp)
  | none =>
    dsimp only
    obtain ⟨hq, hb, -⟩ := ne_of_not_named hl
    by_cases hc : isControl c = true
    · rw [if_pos hc, ← numbered_control hc]
      exact writes_numbered (by decide) c
    · rw [if_neg hc]
      refine writes_self hq hb (Bool.eq_false_iff.2 fun hr => ?_)
      rcases refused_cases hr with rfl | rfl | rfl <;> exact hc rfl

theorem writes_escapeQuoted (hm : mark = '"' ∨ mark = '\'') (c : Char) :
    Writes mark (escapeQuoted mark c) c := by
  have hmark : mark ≠ '\\' := by rcases hm with rfl | rfl <;> decide
  unfold escapeQuoted
  split_ifs with hsame hn hr ht hp
  · refine writes_letter hmark ?_
    rcases hsame with rfl | rfl
    · rcases hm with rfl | rfl <;> rfl
    · rfl
  · exact writes_letter hmark (hn ▸ rfl)
  · exact writes_letter hmark (hr ▸ rfl)
  · exact writes_letter hmark (ht ▸ rfl)
  · rw [not_or] at hsame
    refine writes_self hsame.1 hsame.2 (Bool.eq_false_iff.2 fun hrefused => ?_)
    rcases refused_cases hrefused with rfl | rfl | rfl
    · exact absurd hp (by decide)
    · exact hn rfl
    · exact hr rfl
  · exact writes_numbered hmark c

end Escapes

/-- A literal is read to its end and no further, and gives its text. -/
theorem readLiteral_literal (t : String) (r : List Char) :
    readLiteral ((literal t).toList ++ r) = some (t.toList, r) := by
  rw [literal, String.toList_ofList, List.cons_append, List.cons_append, List.append_assoc,
    readLiteral, if_pos (.inl rfl)]
  exact readBody_flatMap writes_escapeLiteral t.toList r

theorem readLiteral_quoted (t : String) (r : List Char) :
    readLiteral ((quoted t).toList ++ r) = some (t.toList, r) := by
  have hmark : quoteMark t.toList = '"' ∨ quoteMark t.toList = '\'' := by
    unfold quoteMark
    split
    · exact .inl rfl
    · exact .inr rfl
  rw [quoted, String.toList_ofList, List.cons_append, List.cons_append, List.append_assoc,
    readLiteral, if_pos hmark]
  exact readBody_flatMap (writes_escapeQuoted hmark) t.toList r

section Bodies

def Visible (c : Char) : Prop :=
  0x20 ≤ c.toNat ∧ (c.toNat < 0x7f ∨ 0x9f < c.toNat) ∧ c.toNat ≠ 0x2028 ∧ c.toNat ≠ 0x2029

instance (c : Char) : Decidable (Visible c) := inferInstanceAs (Decidable (_ ∧ _ ∧ _ ∧ _))

theorem visible_of_not_control (hc : isControl c = false) (hs : c ≠ '\u2028')
    (hp : c ≠ '\u2029') : Visible c := by
  have hs' : c.toNat ≠ 0x2028 := fun h => hs (Char.toNat_inj.1 h)
  have hp' : c.toNat ≠ 0x2029 := fun h => hp (Char.toNat_inj.1 h)
  simp only [isControl, Bool.or_eq_false_iff, Bool.and_eq_false_iff, decide_eq_false_iff_not] at hc
  unfold Visible
  omega

/-- A double quote stands in a text and no backslash escapes it. -/
def hasBareQuote : List Char → Bool
  | '\\' :: _ :: s => hasBareQuote s
  | c :: s => c = '"' || hasBareQuote s
  | [] => false

/-- What stands for one character in a literal: that character or an escape. -/
inductive Piece : List Char → Prop
  | self {c : Char} (hq : c ≠ '"') (hb : c ≠ '\\') (hv : Visible c) : Piece [c]
  | escape {c : Char} {ds : List Char} (hc : Visible c)
      (hds : ∀ d ∈ ds, d ≠ '"' ∧ d ≠ '\\' ∧ Visible d) : Piece ('\\' :: c :: ds)

theorem Piece.visible (h : Piece w) : ∀ d ∈ w, Visible d := by
  cases h with
  | self _ _ hv => simpa using hv
  | escape hc hds => simpa using ⟨by decide, hc, fun d hd => (hds d hd).2.2⟩

theorem hasBareQuote_append (h : ∀ d ∈ ds, d ≠ '"' ∧ d ≠ '\\' ∧ Visible d) (s : List Char) :
    hasBareQuote (ds ++ s) = hasBareQuote s := by
  induction ds with
  | nil => rfl
  | cons d ds ih =>
    obtain ⟨⟨hq, hb, -⟩, hds⟩ := List.forall_mem_cons.1 h
    rw [List.cons_append, hasBareQuote, ih hds]
    · simp [hq]
    · rintro c s' rfl
      exact absurd rfl hb

theorem Piece.quotes (h : Piece w) (s : List Char) : hasBareQuote (w ++ s) = hasBareQuote s := by
  cases h with
  | self hq hb hv => exact hasBareQuote_append (by simpa using ⟨hq, hb, hv⟩) s
  | escape _ hds => exact hasBareQuote_append hds s

theorem mem_toDigits {d : Char} (h : d ∈ Nat.toDigits 16 n) : ∃ k < 16, d = Nat.digitChar k := by
  induction n using Nat.strongRecOn with
  | _ n ih =>
    by_cases hn : n < 16
    · rw [Nat.toDigits_of_lt_base hn] at h
      exact ⟨n, hn, List.mem_singleton.1 h⟩
    · rw [Nat.toDigits_of_base_le (by decide) (Nat.not_lt.1 hn), List.mem_append] at h
      rcases h with h | h
      · exact ih _ (Nat.div_lt_self (by omega) (by decide)) h
      · exact ⟨n % 16, Nat.mod_lt _ (by decide), List.mem_singleton.1 h⟩

theorem visible_digitChar :
    ∀ k < 16, Nat.digitChar k ≠ '"' ∧ Nat.digitChar k ≠ '\\' ∧ Visible (Nat.digitChar k) := by
  decide

theorem visible_hex (width n : Nat) : ∀ d ∈ hex width n, d ≠ '"' ∧ d ≠ '\\' ∧ Visible d := by
  intro d h
  rw [hex, List.mem_append] at h
  rcases h with h | h
  · obtain rfl := List.eq_of_mem_replicate h
    decide
  · obtain ⟨k, hk, rfl⟩ := mem_toDigits h
    exact visible_digitChar k hk

theorem piece_letter (h : Visible c) : Piece ['\\', c] := .escape h (by simp)

theorem piece_named : ∀ p ∈ namedEscapes, Piece p.2 := by
  simp only [namedEscapes, List.forall_mem_cons]
  refine ⟨piece_letter (by decide), piece_letter (by decide), piece_letter (by decide),
    piece_letter (by decide), piece_letter (by decide), piece_letter (by decide),
    .escape (by decide) (visible_hex 4 0x2028), .escape (by decide) (visible_hex 4 0x2029),
    piece_letter (by decide), piece_letter (by decide), by simp⟩

theorem piece_escapeLiteral (c : Char) : Piece (escapeLiteral c) := by
  unfold escapeLiteral
  cases hl : namedEscapes.lookup c with
  | some e =>
    obtain ⟨l, l', h, -⟩ := List.lookup_eq_some_iff.1 hl
    exact piece_named (c, e) (by rw [h]; simp)
  | none =>
    dsimp only
    obtain ⟨hq, hb, hs, hp⟩ := ne_of_not_named hl
    by_cases hc : isControl c = true
    · rw [if_pos hc]
      exact .escape (by decide) (visible_hex 2 c.toNat)
    · rw [if_neg hc]
      exact .self hq hb (visible_of_not_control (Bool.eq_false_iff.2 hc) hs hp)

/-- Between its quote marks, a literal has no control character, no line separator and no quote
mark that could end it. -/
theorem literal_body (t : String) : ∃ body, (literal t).toList = '"' :: body ++ ['"'] ∧
    hasBareQuote body = false ∧ ∀ c ∈ body, Visible c := by
  refine ⟨_, String.toList_ofList, ?_, fun d hd => ?_⟩
  · induction t.toList with
    | nil => rfl
    | cons c t ih => rw [List.flatMap_cons, (piece_escapeLiteral c).quotes, ih]
  · obtain ⟨c, -, hd⟩ := List.mem_flatMap.1 hd
    exact (piece_escapeLiteral c).visible d hd

end Bodies

end Phrasebook.Text
