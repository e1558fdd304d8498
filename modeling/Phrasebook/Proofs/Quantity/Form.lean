import Phrasebook.Proofs.Pattern.Joining
import Phrasebook.Quantity

/-!
# References without brackets

A form without opening brackets is text with references in it. Brackets are put around each of them,
and what comes of it is read as a pattern: a tilde without a pair that stands right before a
reference escapes the new bracket, so that the reference stays text and the tilde is lost. This is
all that can go wrong: without such tildes every reference is replaced by what it refers to.
-/

namespace Phrasebook

namespace Pattern

variable {stop : Char → Bool} {final : Bool} {c : Char} {u v w t : List Char}

def dangling : List Char → Bool
  | '~' :: c :: cs => if isEscapable c then dangling cs else dangling (c :: cs)
  | [c] => c = '~'
  | _ :: cs => dangling cs
  | [] => false

section Dangling

theorem dangling_escape (hc : isEscapable c = true) (w : List Char) :
    dangling ('~' :: c :: w) = dangling w := by
  rw [dangling, if_pos hc]

theorem dangling_tilde (hc : isEscapable c = false) (w : List Char) :
    dangling ('~' :: c :: w) = dangling (c :: w) := by
  rw [dangling, if_neg (by simp [hc])]

theorem dangling_plain (hc : c ≠ '~') (w : List Char) : dangling (c :: w) = dangling w := by
  cases w with
  | nil => simp [dangling, hc]
  | cons d w =>
    rw [dangling]
    · exact fun _ _ h _ => hc h
    · exact fun h => nomatch h

theorem spells_text (h : ∀ c ∈ w, stop c = false) : Spells stop true w (decode w) := by
  fun_induction decode w with
  | case1 c cs hc ih =>
    exact .escape hc (ih fun d hd => h d (List.mem_cons_of_mem _ (List.mem_cons_of_mem _ hd)))
  | case2 c cs hc ih =>
    exact .tilde (by simpa using hc) (ih fun d hd => h d (List.mem_cons_of_mem _ hd))
  | case3 c cs hne ih =>
    by_cases hc : c = '~'
    · subst hc
      cases cs with
      | nil => exact .last
      | cons d ds => exact absurd rfl (hne d ds rfl)
    · exact .plain hc (h c List.mem_cons_self) (ih fun d hd => h d (List.mem_cons_of_mem _ hd))
  | case4 => exact .nil

theorem Spells.closed_or_dangling (h : Spells stop final w t) :
    (dangling w = false ∧ Spells stop false w t) ∨
    (dangling w = true ∧ ∃ v s, w = v ++ ['~'] ∧ t = s ++ ['~'] ∧ Spells stop false v s) := by
  induction h with
  | nil => exact .inl ⟨rfl, .nil⟩
  | escape hc _ ih =>
    rw [dangling_escape hc]
    obtain ⟨hd, hw⟩ | ⟨hd, v, s, rfl, rfl, hv⟩ := ih
    · exact .inl ⟨hd, .escape hc hw⟩
    · exact .inr ⟨hd, _, _, rfl, rfl, .escape hc hv⟩
  | @tilde _ c w t hc _ ih =>
    rw [dangling_tilde hc]
    obtain ⟨hd, hw⟩ | ⟨hd, v, s, hw, rfl, hv⟩ := ih
    · exact .inl ⟨hd, .tilde hc hw⟩
    · cases v with
      | nil =>
        obtain ⟨rfl, rfl⟩ := List.cons.inj hw
        contradiction
      | cons d v =>
        obtain ⟨rfl, rfl⟩ := List.cons.inj hw
        exact .inr ⟨hd, _, _, rfl, rfl, .tilde hc hv⟩
  | plain ht hc _ ih =>
    rw [dangling_plain ht]
    obtain ⟨hd, hw⟩ | ⟨hd, v, s, rfl, rfl, hv⟩ := ih
    · exact .inl ⟨hd, .plain ht hc hw⟩
    · exact .inr ⟨hd, _, _, rfl, rfl, .plain ht hc hv⟩
  | last => exact .inr ⟨rfl, [], [], rfl, rfl, .nil⟩

end Dangling

end Pattern

namespace Quantity

open Pattern

/-- A reference without brackets, and the text behind it up to the next one. -/
structure Mention where
  digits : List Char
  text : List Char

namespace Mention

def bare (m : Mention) : List Char := '_' :: m.digits

def bracketed (m : Mention) : List Char := '[' :: (m.bare ++ [']'])

def index (m : Mention) : Nat := Text.ofDigits m.digits

end Mention

def cut : List Char → List Char × List Mention
  | [] => ([], [])
  | c :: cs =>
    let (w, ms) := cut cs
    if c = '_' && startsWithDigit w then
      ([], ⟨w.takeWhile Char.isDigit, w.dropWhile Char.isDigit⟩ :: ms)
    else (c :: w, ms)

/-- The digits of a reference are all there are, and the text behind it has no reference in it. -/
structure Mention.Proper (m : Mention) : Prop where
  nonempty : m.digits ≠ []
  digits : ∀ c ∈ m.digits, c.isDigit = true
  maximal : startsWithDigit m.text = false
  text : cut m.text = (m.text, [])

def behind (write : Mention → List Char) (ms : List Mention) : List Char :=
  ms.flatMap fun m => write m ++ m.text

section Cut

variable {c : Char} {cs s w : List Char} {m : Mention} {ms : List Mention}

@[simp] theorem behind_nil (write : Mention → List Char) : behind write [] = [] := rfl

@[simp] theorem behind_cons (write : Mention → List Char) (m : Mention) (ms : List Mention) :
    behind write (m :: ms) = write m ++ (m.text ++ behind write ms) := by
  simp [behind]

theorem cut_reference (h : startsWithDigit (cut cs).1 = true) :
    cut ('_' :: cs) = ([], ⟨(cut cs).1.takeWhile Char.isDigit,
      (cut cs).1.dropWhile Char.isDigit⟩ :: (cut cs).2) := by
  simp [cut, h]

theorem cut_plain (h : ¬ (c = '_' ∧ startsWithDigit (cut cs).1 = true)) :
    cut (c :: cs) = (c :: (cut cs).1, (cut cs).2) := by
  rw [cut]
  exact if_neg (by simpa using h)

theorem startsWithDigit_cut (s : List Char) : startsWithDigit (cut s).1 = startsWithDigit s := by
  cases s with
  | nil => rfl
  | cons c cs =>
    by_cases h : c = '_' ∧ startsWithDigit (cut cs).1 = true
    · obtain ⟨rfl, hd⟩ := h
      rw [cut_reference hd]
      rfl
    · rw [cut_plain h]
      rfl

theorem cut_behind (s : List Char) : (cut s).1 ++ behind Mention.bare (cut s).2 = s := by
  induction s with
  | nil => rfl
  | cons c cs ih =>
    by_cases h : c = '_' ∧ startsWithDigit (cut cs).1 = true
    · obtain ⟨rfl, hd⟩ := h
      rw [cut_reference hd, behind_cons, Mention.bare, List.nil_append, List.cons_append,
        ← List.append_assoc, List.takeWhile_append_dropWhile, ih]
    · rw [cut_plain h, List.cons_append, ih]

theorem cut_suffix {u v : List Char} (h : cut (u ++ v) = (u ++ v, [])) : cut v = (v, []) := by
  induction u with
  | nil => exact h
  | cons c u ih =>
    rw [List.cons_append] at h
    by_cases hr : c = '_' ∧ startsWithDigit (cut (u ++ v)).1 = true
    · obtain ⟨rfl, hd⟩ := hr
      rw [cut_reference hd] at h
      cases (Prod.ext_iff.1 h).2
    · rw [cut_plain hr] at h
      exact ih (Prod.ext (List.cons.inj (Prod.ext_iff.1 h).1).2 (Prod.ext_iff.1 h).2)

theorem cut_text (s : List Char) : cut (cut s).1 = ((cut s).1, []) := by
  induction s with
  | nil => rfl
  | cons c cs ih =>
    by_cases h : c = '_' ∧ startsWithDigit (cut cs).1 = true
    · obtain ⟨rfl, hd⟩ := h
      rw [cut_reference hd]
      rfl
    · rw [cut_plain h, cut_plain (by rwa [ih]), ih]

theorem proper_cut (s : List Char) : ∀ m ∈ (cut s).2, m.Proper := by
  induction s with
  | nil => exact fun _ h => nomatch h
  | cons c cs ih =>
    by_cases h : c = '_' ∧ startsWithDigit (cut cs).1 = true
    · obtain ⟨rfl, hd⟩ := h
      rw [cut_reference hd]
      refine List.forall_mem_cons.2 ⟨⟨?_, ?_, ?_, ?_⟩, ih⟩
      · cases hw : (cut cs).1 with
        | nil => simp [hw, startsWithDigit] at hd
        | cons d w =>
          rw [hw, startsWithDigit] at hd
          simp [hd]
      · exact fun c hc => List.all_eq_true.1 List.all_takeWhile c hc
      · have hhead := List.head?_dropWhile_not Char.isDigit (cut cs).1
        cases hw : (cut cs).1.dropWhile Char.isDigit with
        | nil => rfl
        | cons d w =>
          rw [hw] at hhead
          exact hhead
      · refine cut_suffix (u := (cut cs).1.takeWhile Char.isDigit) ?_
        rw [List.takeWhile_append_dropWhile]
        exact cut_text cs
    · rw [cut_plain h]
      exact ih

/-- The brackets that are put around the references of a form without brackets. Where the digits of
a reference are being read, it is closed behind them. -/
theorem bracketed_cut (h : '[' ∉ s) :
    bracketed false false s = (cut s).1 ++ behind Mention.bracketed (cut s).2 ∧
    bracketed true false s = (cut s).1.takeWhile Char.isDigit ++
      ']' :: ((cut s).1.dropWhile Char.isDigit ++ behind Mention.bracketed (cut s).2) := by
  induction s with
  | nil => exact ⟨rfl, rfl⟩
  | cons c cs ih =>
    obtain ⟨hc, hcs⟩ := not_or.1 (List.mem_cons.not.1 h)
    have hopened : decide (c = '[') = false := decide_eq_false (Ne.symm hc)
    obtain ⟨houtside, hinside⟩ := ih hcs
    by_cases hr : c = '_' ∧ startsWithDigit (cut cs).1 = true
    · obtain ⟨rfl, hd⟩ := hr
      have hcs' : startsWithDigit cs = true := startsWithDigit_cut cs ▸ hd
      have hbracket : bracketed true false cs = _ := hinside
      rw [cut_reference hd]
      simp [bracketed, hcs', hbracket, Mention.bracketed, Mention.bare]
    · rw [cut_plain hr]
      have hplain : (c = '_' && startsWithDigit cs) = false := by
        rw [← startsWithDigit_cut cs]
        simpa using hr
      have hstep : ∀ closing, (if c = '_' && !false && startsWithDigit cs then
          closing ++ '[' :: '_' :: bracketed true false cs
          else closing ++ c :: bracketed false (decide (c = '[')) cs) =
            closing ++ c :: ((cut cs).1 ++ behind Mention.bracketed (cut cs).2) := by
        intro closing
        rw [Bool.not_false, Bool.and_true, hplain, hopened, houtside]
        rfl
      constructor
      · rw [bracketed, Bool.false_and]
        exact hstep []
      · rw [bracketed, Bool.true_and]
        by_cases hdigit : c.isDigit = true
        · rw [if_pos hdigit, hinside]
          simp [hdigit]
        · rw [if_neg hdigit]
          refine (hstep [']']).trans ?_
          simp [hdigit]

end Cut

section Values

variable (value : Nat → List Char)

/-- The text of a form with the values of its references in their places. -/
def substituted (w : List Char) (ms : List Mention) : List Char :=
  decode w ++ ms.flatMap fun m => value m.index ++ decode m.text

/-- The text of a form in which a tilde before a reference hides it. -/
def written : List Char → List Mention → List Char
  | w, [] => decode w
  | w, m :: ms =>
    if dangling w then (decode w).dropLast ++ m.bracketed ++ written m.text ms
    else decode w ++ value m.index ++ written m.text ms

def hides : List Char → List Mention → Bool
  | _, [] => false
  | w, m :: ms => dangling w || hides m.text ms

variable {value} {w : List Char}

theorem decode_dangling (hd : dangling w = true) : ∃ s, decode w = s ++ ['~'] := by
  have hw : Spells (fun _ => false) true w (decode w) := spells_text fun _ _ => rfl
  obtain ⟨hd', -⟩ | ⟨-, v, s, -, hs, -⟩ := hw.closed_or_dangling
  · rw [hd] at hd'
    contradiction
  · exact ⟨s, hs⟩

theorem substituted_cons (w : List Char) (m : Mention) (ms : List Mention) :
    substituted value w (m :: ms) = decode w ++ (value m.index ++ substituted value m.text ms) := by
  simp [substituted]

/-- Where no reference is hidden, each is replaced by its value, and only there. -/
theorem written_eq_iff (w : List Char) (ms : List Mention) :
    written value w ms = substituted value w ms ↔ hides w ms = false := by
  induction ms generalizing w with
  | nil => simp [written, substituted, hides]
  | cons m ms ih =>
    rw [substituted_cons, written, hides]
    by_cases hd : dangling w = true
    · obtain ⟨s, hs⟩ := decode_dangling hd
      simp [hd, hs, Mention.bracketed]
    · simp [hd, ih]

end Values

end Quantity

end Phrasebook
