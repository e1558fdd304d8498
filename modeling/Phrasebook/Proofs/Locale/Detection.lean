import Mathlib.Data.List.TakeWhile
import Phrasebook.Locale.Tag

/-!
# The language of the user

The answers of the system and of the environment are compared with the names of the neutral locale
as they are given, and cut to a tag after that. So a neutral locale that carries an encoding or a
modifier is taken for a language, and so is an encoding or a modifier that stands alone. Every other
code gives a tag that names a language.
-/

namespace Phrasebook.Locale

variable {c : Char} {code name tag : String} {required : Bool} {s : Surroundings}

/-! ## Codes and their tags -/

def StartsSuffix (c : Char) : Prop := c = '.' ∨ c = '@'

instance : Decidable (StartsSuffix c) := inferInstanceAs (Decidable (_ ∨ _))

def nameless : List String := ["", "C", "POSIX"]

/-- A tag without the marks that only codes have. -/
def IsPlain (tag : String) : Prop := ∀ c ∈ tag.toList, c ≠ '_' ∧ ¬ StartsSuffix c

instance : Decidable (IsPlain tag) :=
  List.decidableBAll (fun c => c ≠ '_' ∧ ¬ StartsSuffix c) tag.toList

/-- An encoding or a modifier, alone or behind the name of the neutral locale. -/
def IsSuffixOnly (code : String) : Prop :=
  ∃ name ∈ nameless, ∃ c suffix, StartsSuffix c ∧ code.toList = name.toList ++ c :: suffix

def stem (code : String) : List Char := code.toList.takeWhile fun c => c ≠ '.' ∧ c ≠ '@'

theorem toTag_toList :
    (toTag code).toList = (stem code).map fun c => if c = '_' then '-' else c :=
  String.toList_ofList

theorem mem_stem (h : c ∈ stem code) : ¬ StartsSuffix c := by
  have hc := List.mem_takeWhile_imp h
  simpa [StartsSuffix] using hc

theorem toTag_isPlain : IsPlain (toTag code) := by
  intro c hc
  rw [toTag_toList, List.mem_map] at hc
  obtain ⟨d, hd, rfl⟩ := hc
  split
  · decide
  · exact ⟨‹_›, mem_stem hd⟩

theorem toTag_eq_iff (h : ∀ c ∈ name.toList, c ≠ '-' ∧ c ≠ '_') :
    toTag code = name ↔ stem code = name.toList := by
  rw [← String.toList_inj, toTag_toList]
  constructor
  · intro heq
    have hkept : ∀ c ∈ stem code, (if c = '_' then '-' else c) = c := by
      intro c hc
      have hname := h _ (heq ▸ List.mem_map_of_mem hc)
      split at hname
      · exact absurd rfl hname.1
      · exact if_neg ‹_›
    rw [← heq, List.map_congr_left hkept, List.map_id']
  · intro heq
    have hkept : ∀ c ∈ name.toList, (if c = '_' then '-' else c) = c :=
      fun c hc => if_neg (h c hc).2
    rw [heq, List.map_congr_left hkept, List.map_id']

theorem nameless_unmarked (hname : name ∈ nameless) (hc : c ∈ name.toList) :
    (c ≠ '-' ∧ c ≠ '_') ∧ ¬ StartsSuffix c := by
  have hall : ∀ name ∈ nameless,
      name.toList.all fun c => (c ≠ '-' ∧ c ≠ '_') ∧ ¬ StartsSuffix c := by decide
  exact of_decide_eq_true (List.all_eq_true.mp (hall name hname) c hc)

theorem toTag_eq_nameless_iff (hname : name ∈ nameless) :
    toTag code = name ↔ stem code = name.toList :=
  toTag_eq_iff fun _ hc => (nameless_unmarked hname hc).1

theorem stem_eq_iff {name : List Char} (h : ∀ c ∈ name, ¬ StartsSuffix c) :
    stem code = name ↔ code.toList = name ∨
      ∃ c suffix, StartsSuffix c ∧ code.toList = name ++ c :: suffix := by
  have hkept : ∀ c ∈ name, decide (c ≠ '.' ∧ c ≠ '@') = true :=
    fun c hc => decide_eq_true (not_or.mp (h c hc))
  unfold stem
  constructor
  · intro heq
    have hsplit := List.takeWhile_append_dropWhile (p := fun c => decide (c ≠ '.' ∧ c ≠ '@'))
      (l := code.toList)
    rw [heq] at hsplit
    cases hrest : code.toList.dropWhile fun c => decide (c ≠ '.' ∧ c ≠ '@') with
    | nil => exact .inl (by rw [← hsplit, hrest, List.append_nil])
    | cons c suffix =>
      refine .inr ⟨c, suffix, ?_, by rw [← hsplit, hrest]⟩
      have hc := List.head?_dropWhile_not (fun c => decide (c ≠ '.' ∧ c ≠ '@')) code.toList
      rw [hrest] at hc
      simpa [StartsSuffix, Decidable.or_iff_not_imp_left] using hc
  · rintro (heq | ⟨c, suffix, hc, heq⟩)
    · rw [heq, List.takeWhile_eq_self_iff]
      exact hkept
    · have hstop : decide (c ≠ '.' ∧ c ≠ '@') = false :=
        decide_eq_false fun hboth => hc.elim hboth.1 hboth.2
      rw [heq, List.takeWhile_append_of_pos hkept, List.takeWhile_cons, hstop]
      exact List.append_nil _

/-- A code that is not compared away gives no language exactly if it is nothing but a suffix. -/
theorem toTag_mem_nameless_iff (h : code ∉ nameless) :
    toTag code ∈ nameless ↔ IsSuffixOnly code := by
  have hstem : ∀ {name}, name ∈ nameless → (stem code = name.toList ↔
      code.toList = name.toList ∨
        ∃ c suffix, StartsSuffix c ∧ code.toList = name.toList ++ c :: suffix) :=
    fun hname => stem_eq_iff fun _ hc => (nameless_unmarked hname hc).2
  constructor
  · intro hmem
    rcases (hstem hmem).mp ((toTag_eq_nameless_iff hmem).mp rfl) with heq | hsuffix
    · rw [String.toList_inj.mp heq] at h
      exact absurd hmem h
    · exact ⟨_, hmem, hsuffix⟩
  · rintro ⟨name, hmem, hsuffix⟩
    rw [(toTag_eq_nameless_iff hmem).mpr ((hstem hmem).mpr (.inr hsuffix))]
    exact hmem

/-! ## The code that is picked -/

def Surroundings.answers (s : Surroundings) : List (Option String) :=
  s.system.code? :: variableNames.map fun v => s.environment.lookup v

def Picks (s : Surroundings) (code : String) : Prop :=
  code ∉ nameless ∧ ∃ passed rest, s.answers = passed ++ some code :: rest ∧
    ∀ c, some c ∈ passed → c ∈ nameless

theorem named_eq_some_iff {answer : Option String} :
    named answer = some code ↔ answer = some code ∧ code ∉ nameless := by
  unfold named nameless isNeutral
  rw [Option.filter_eq_some_iff]
  simp

theorem named_eq_none_iff {answer : Option String} :
    named answer = none ↔ ∀ c, answer = some c → c ∈ nameless := by
  simp [Option.eq_none_iff_forall_ne_some, named_eq_some_iff]

theorem detect_eq : detect s = (s.answers.findSome? named).map toTag := by
  unfold detect Surroundings.answers
  rw [List.findSome?_cons, List.findSome?_map]
  cases named s.system.code? <;> rfl

theorem findSome?_named_eq_some_iff :
    s.answers.findSome? named = some code ↔ Picks s code := by
  rw [List.findSome?_eq_some_iff]
  constructor
  · rintro ⟨passed, answer, rest, hs, hanswer, hpassed⟩
    obtain ⟨rfl, hcode⟩ := named_eq_some_iff.mp hanswer
    exact ⟨hcode, passed, rest, hs, fun c hc => named_eq_none_iff.mp (hpassed _ hc) c rfl⟩
  · rintro ⟨hcode, passed, rest, hs, hpassed⟩
    refine ⟨passed, some code, rest, hs, named_eq_some_iff.mpr ⟨rfl, hcode⟩, fun answer ha => ?_⟩
    exact named_eq_none_iff.mpr fun c hc => hpassed c (hc ▸ ha)

/-- The language that is found is a tag without an underscore, an encoding or a modifier. It is
the tag of the code that is picked, and is empty or a name of the neutral locale exactly if that
code is nothing but a suffix. Where no code is picked, it is the default or, if a language is
required, an error. -/
theorem systemLanguage_named_iff (required : Bool) (s : Surroundings) :
    (∃ code, Picks s code ∧ systemLanguage required s = .ok (toTag code) ∧
      IsPlain (toTag code) ∧ (toTag code ∉ nameless ↔ ¬ IsSuffixOnly code)) ∨
    ((∀ code, ¬ Picks s code) ∧ required = false ∧
      ∃ tag, systemLanguage required s = .ok tag ∧ IsPlain tag ∧ tag ∉ nameless) ∨
    ((∀ code, ¬ Picks s code) ∧ required = true ∧
      systemLanguage required s = .error .undetected) := by
  unfold systemLanguage
  rw [detect_eq]
  cases hpick : s.answers.findSome? named with
  | some code =>
    have hcode := findSome?_named_eq_some_iff.mp hpick
    exact .inl ⟨code, hcode, rfl, toTag_isPlain, not_congr (toTag_mem_nameless_iff hcode.1)⟩
  | none =>
    have hnone : ∀ code, ¬ Picks s code := by
      intro code hcode
      rw [findSome?_named_eq_some_iff.mpr hcode] at hpick
      cases hpick
    cases required with
    | false =>
      have hplain : IsPlain defaultTag := by decide
      have hnamed : defaultTag ∉ nameless := by decide
      exact .inr (.inl ⟨hnone, rfl, defaultTag, rfl, hplain, hnamed⟩)
    | true => exact .inr (.inr ⟨hnone, rfl, rfl⟩)

example : systemLanguage true ⟨.unsupported, [("LANG", "C.UTF-8")]⟩ = .ok "C" := by decide

end Phrasebook.Locale
