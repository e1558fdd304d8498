import Mathlib.Data.List.Basic
import Phrasebook.Pattern.Cursor
import Phrasebook.Proofs.Pattern.Scanning

/-!
# Escapes by their places

Scanning and decoding go through a text and take its escapes apart on the way. Here the escapes are
told from the text alone: a character is escaped by the tilde before it if that tilde is not escaped
itself. Both kinds of scanning end a text at the first character that stops it and is not escaped,
and decoding leaves out the tildes that escape something, and nothing else. So no escape is ever cut
in two, and what was an escape for the scanner is one for the decoder.
-/

namespace Phrasebook.Pattern

variable {stops s : List Char} {c d : Char} {i n : Nat}

/-- The character at a place is the second one of an escape: before it stands a tilde that is not
the second one itself. -/
def isEscaped (s : List Char) : Nat → Bool
  | 0 => false
  | i + 1 => s[i]? == some '~' && s[i + 1]?.any isEscapable && !isEscaped s i

example : (List.range 7).filter (isEscaped "~~~[~a~".toList) = [1, 3] := by decide

/-- A text in front of `s` that any of `stops` can end has `n` characters: it goes on to the first
of them that is not escaped, or to the end of `s`. -/
structure EndsAt (stops s : List Char) (n : Nat) : Prop where
  within : n ≤ s.length
  before : ∀ i < n, ∀ c, s[i]? = some c → c ∈ stops → isEscaped s i = true
  here : ∀ c, s[n]? = some c → c ∈ stops ∧ isEscaped s n = false

/-- What the first `n` characters of `s` denote: all but the tildes that escape. -/
def denoted (s : List Char) (n : Nat) : List Char :=
  (List.range n).filterMap fun i => if isEscaped s (i + 1) then none else s[i]?

section Places

theorem isEscaped_succ (s : List Char) (i : Nat) : isEscaped s (i + 1) =
    (s[i]? == some '~' && s[i + 1]?.any isEscapable && !isEscaped s i) :=
  rfl

theorem isEscaped_end : isEscaped s s.length = false := by
  cases h : s.length with
  | zero => rfl
  | succ n =>
    have : s[n + 1]? = none := by simp [h]
    simp [isEscaped, this]

theorem isEscaped_take (h : i < n) : isEscaped (s.take n) i = isEscaped s i := by
  induction i with
  | zero => rfl
  | succ i ih =>
    rw [isEscaped_succ, isEscaped_succ, ih (by omega), List.getElem?_take_of_lt h,
      List.getElem?_take_of_lt (by omega)]

theorem isEscaped_pair (h : isEscaped (c :: d :: s) 1 = true) :
    isEscaped (c :: d :: s) (i + 2) = isEscaped s i := by
  induction i with
  | zero => rw [isEscaped_succ, h, Bool.not_true, Bool.and_false, isEscaped]
  | succ i ih =>
    rw [isEscaped_succ, ih]
    rfl

theorem isEscaped_single (h : isEscaped (c :: s) 1 = false) :
    isEscaped (c :: s) (i + 1) = isEscaped s i := by
  induction i with
  | zero => exact h
  | succ i ih =>
    rw [isEscaped_succ, ih]
    rfl

theorem isEscaped_tilde (h : isEscapable d = true) : isEscaped ('~' :: d :: s) 1 = true := by
  simp [isEscaped, h]

theorem not_isEscaped_tilde (h : ¬ isEscapable d = true) :
    isEscaped ('~' :: d :: s) 1 = false := by
  simp [isEscaped, h]

theorem not_isEscaped_plain (h : ∀ d r, c = '~' → s = d :: r → False) :
    isEscaped (c :: s) 1 = false := by
  cases s with
  | nil => simp [isEscaped]
  | cons d r =>
    have hc : c ≠ '~' := fun hc => h d r hc rfl
    simp [isEscaped, hc]

end Places

section Ends

theorem EndsAt.whole (h : EndsAt stops s n) : isEscaped s n = false := by
  rcases Nat.lt_or_eq_of_le h.within with hlt | rfl
  · exact (h.here s[n] (List.getElem?_eq_getElem hlt)).2
  · exact isEscaped_end

theorem endsAt_nil : EndsAt stops [] 0 where
  within := Nat.le_refl 0
  before := fun _ hi => absurd hi (Nat.not_lt_zero _)
  here := fun _ h => by simp at h

theorem endsAt_stop (hc : c ∈ stops) : EndsAt stops (c :: s) 0 where
  within := Nat.zero_le _
  before := fun _ hi => absurd hi (Nat.not_lt_zero _)
  here := fun d hd => by
    obtain rfl : c = d := by simpa using hd
    exact ⟨hc, rfl⟩

theorem EndsAt.single (h : EndsAt stops s n) (hc : c ∉ stops)
    (hplain : isEscaped (c :: s) 1 = false) : EndsAt stops (c :: s) (n + 1) where
  within := Nat.succ_le_succ h.within
  before := fun i hi d hd hstop => by
    cases i with
    | zero =>
      obtain rfl : c = d := by simpa using hd
      exact absurd hstop hc
    | succ i =>
      rw [isEscaped_single hplain]
      exact h.before i (by omega) d (by simpa using hd) hstop
  here := fun d hd => by
    rw [isEscaped_single hplain]
    exact h.here d (by simpa using hd)

theorem EndsAt.pair (h : EndsAt stops s n) (hc : c ∉ stops)
    (hpair : isEscaped (c :: d :: s) 1 = true) : EndsAt stops (c :: d :: s) (n + 2) where
  within := Nat.succ_le_succ (Nat.succ_le_succ h.within)
  before := fun i hi e he hstop => by
    match i with
    | 0 =>
      obtain rfl : c = e := by simpa using he
      exact absurd hstop hc
    | 1 => exact hpair
    | i + 2 =>
      rw [isEscaped_pair hpair]
      exact h.before i (by omega) e (by simpa using he) hstop
  here := fun e he => by
    rw [isEscaped_pair hpair]
    exact h.here e (by simpa using he)

/-- Scanning stops where the text ends, and takes each escape as a whole on the way there. -/
theorem endsAt_scanText (htilde : '~' ∉ stops) (s : List Char) :
    EndsAt stops s (scanText (fun c => c ∈ stops) s).1.length := by
  fun_induction scanText (fun c => c ∈ stops) s with
  | case1 c s hc text rest e ih =>
    rw [e] at ih
    exact ih.pair htilde (isEscaped_tilde hc)
  | case2 c s hc text rest e ih =>
    rw [e] at ih
    exact ih.single htilde (not_isEscaped_tilde hc)
  | case3 c s _ hc => exact endsAt_stop (of_decide_eq_true hc)
  | case4 c s hplain hc text rest e ih =>
    rw [e] at ih
    exact ih.single (by simpa using hc) (not_isEscaped_plain hplain)
  | case5 => exact endsAt_nil

end Ends

section Denotation

theorem denoted_single (hplain : isEscaped (c :: s) 1 = false) :
    denoted (c :: s) (n + 1) = c :: denoted s n := by
  have hshift : ∀ i, isEscaped (c :: s) (i + 1) = isEscaped s i := fun i =>
    isEscaped_single hplain
  rw [denoted, List.range_succ_eq_map, List.filterMap_cons, hplain, List.filterMap_map, denoted]
  simp [hshift]

theorem denoted_pair (hpair : isEscaped (c :: d :: s) 1 = true) :
    denoted (c :: d :: s) (n + 2) = d :: denoted s n := by
  have hshift : ∀ i, isEscaped (c :: d :: s) (i + 2) = isEscaped s i := fun i =>
    isEscaped_pair hpair
  have hnone : isEscaped s 0 = false := rfl
  rw [denoted, List.range_succ_eq_map, List.filterMap_cons, hpair, List.filterMap_map, denoted,
    List.range_succ_eq_map, List.filterMap_cons, List.filterMap_map]
  simp [Function.comp_def, hshift, hnone]

theorem decode_eq_denoted (s : List Char) : decode s = denoted s s.length := by
  fun_induction decode s with
  | case1 c s hc ih =>
    rw [ih]
    exact (denoted_pair (isEscaped_tilde hc)).symm
  | case2 c s hc ih =>
    rw [ih]
    exact (denoted_single (not_isEscaped_tilde hc)).symm
  | case3 c s hplain ih =>
    rw [ih]
    exact (denoted_single (not_isEscaped_plain hplain)).symm
  | case4 => rfl

/-- A text that is cut off where no escape is cut in two denotes what it denotes in its place. -/
theorem denoted_take (h : isEscaped s n = false) : denoted (s.take n) n = denoted s n := by
  refine List.filterMap_congr fun i hi => ?_
  have hi : i < n := List.mem_range.mp hi
  have hnext : isEscaped (s.take n) (i + 1) = isEscaped s (i + 1) := by
    rcases Nat.lt_or_eq_of_le (show i + 1 ≤ n from hi) with hlt | rfl
    · exact isEscaped_take hlt
    · rw [h, isEscaped_succ, List.getElem?_take_eq_none (Nat.le_refl _), Option.any_none,
        Bool.and_false, Bool.false_and]
  rw [hnext, List.getElem?_take_of_lt hi]

end Denotation

section Reading

theorem opensDirective_eq : opensDirective = fun c => decide (c ∈ ['[']) := by
  funext c
  simp [opensDirective]

theorem endsArgument_eq : endsArgument = fun c => decide (c ∈ ['[', ']', ',']) := by
  funext c
  simp [endsArgument, Bool.or_assoc]

theorem cutText_fst (stop : Char → Bool) (s : List Char) :
    (cutText stop s).1 = (scanText stop s).1 := by
  unfold cutText
  split <;> rename_i h <;> exact (congrArg Prod.fst h).symm

theorem scanText_eq_take (stop : Char → Bool) (s : List Char) :
    (scanText stop s).1 = s.take (scanText stop s).1.length :=
  List.prefix_iff_eq_take.mp ⟨_, scanText_append stop s⟩

/-- The text that a cursor reads at `start` is what the readers of patterns cut off there; it ends
where it should, with its escapes whole, and it denotes what these make of it. -/
structure TextRead (kind : TokenKind) (stop : Char → Bool) (stops : List Char) (source : String)
    (start n : Nat) (text : String) : Prop where
  scanned : Cursor.scan ⟨source, start⟩ kind = .ok (text, ⟨source, start + n⟩)
  cut : (cutText stop (source.toList.drop start)).1 = text.toList
  text_eq : text.toList = (source.toList.drop start).take n
  ends : EndsAt stops (source.toList.drop start) n
  whole : isEscaped (source.toList.drop start) n = false
  denotes : (unescape text).toList = denoted (source.toList.drop start) n

theorem textRead {kind : TokenKind} {stop : Char → Bool} {source : String} {start : Nat}
    (hkind : ∀ s, kind.scan s = some (scanText stop s)) (hstop : stop = fun c => decide (c ∈ stops))
    (htilde : '~' ∉ stops) (h : start ≤ source.toList.length) :
    ∃ n text, TextRead kind stop stops source start n text := by
  have hends := endsAt_scanText htilde (source.toList.drop start)
  rw [← hstop] at hends
  have htake := scanText_eq_take stop (source.toList.drop start)
  refine ⟨_, String.ofList (scanText stop (source.toList.drop start)).1, ?_, ?_, ?_, hends,
    hends.whole, ?_⟩
  · rw [Cursor.scan, Int.toNat_natCast, Cursor.length, Nat.min_eq_left h, hkind]
  · rw [cutText_fst, String.toList_ofList]
  · rw [String.toList_ofList]
    exact htake
  · rw [unescape, String.toList_ofList, String.toList_ofList, decode_eq_denoted]
    have := denoted_take hends.whole
    rwa [← htake] at this

end Reading

/-- Wherever a text starts, scanning outside and inside of directives ends it at the first character
with a meaning there that no tilde escapes, or at the end, and so never between a tilde and what it
escapes. What an escape is there is one for decoding too, which drops its tilde and keeps all other
characters. Any text can be written with escapes and is decoded to itself. -/
theorem scanning_respects_escapes {source : String} {start : Nat}
    (h : start ≤ source.toList.length) :
    (∃ n text, TextRead .literal opensDirective ['['] source start n text) ∧
    (∃ n text, TextRead .argument endsArgument ['[', ']', ','] source start n text) ∧
    (∀ text : String, (unescape text).toList = denoted text.toList text.toList.length) ∧
    ∀ text : String, unescape (String.ofList (encode text.toList)) = text := by
  refine ⟨textRead (fun _ => rfl) opensDirective_eq (by decide) h,
    textRead (fun _ => rfl) endsArgument_eq (by decide) h, fun text => ?_, fun text => ?_⟩
  · rw [unescape, String.toList_ofList, decode_eq_denoted]
  · rw [unescape, String.toList_ofList, decode_encode, String.ofList_toList]

/-- Read from its second tilde on, this text has no bracket that opens a directive; read from its
first, it has one. -/
theorem scanning_respects_escapes_tildes :
    let source := "~~[~~~[,~"
    1 ≤ source.toList.length ∧
    (∃ n text, TextRead .literal opensDirective ['['] source 1 n text) ∧
    (∃ n text, TextRead .argument endsArgument ['[', ']', ','] source 1 n text) ∧
    Cursor.scan ⟨source, 1⟩ .literal = .ok ("~[~~~[,~", ⟨source, 9⟩) ∧
    Cursor.scan ⟨source, 1⟩ .argument = .ok ("~[~~~[", ⟨source, 7⟩) ∧
    Cursor.scan ⟨source, 0⟩ .literal = .ok ("~~", ⟨source, 2⟩) ∧
    (unescape source).toList = denoted source.toList source.toList.length ∧
    unescape (String.ofList (encode source.toList)) = source := by
  intro source
  have hstart : 1 ≤ source.toList.length := by decide
  obtain ⟨hliteral, hargument, hdenotes, hencode⟩ := scanning_respects_escapes hstart
  exact ⟨hstart, hliteral, hargument, by decide +kernel, by decide +kernel, by decide +kernel,
    hdenotes source, hencode source⟩

end Phrasebook.Pattern
