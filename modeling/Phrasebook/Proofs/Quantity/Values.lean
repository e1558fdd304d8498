import Phrasebook.Locale.Catalogue
import Phrasebook.Proofs.Lexicon.Queries
import Phrasebook.Proofs.Pattern.Printing
import Phrasebook.Proofs.Quantity.Inert

/-!
# Values inside a quantity

The value of an argument is put into a form, and then the form is read as a pattern. So the value is
read with it: it comes out as it is only where nothing in it, or between it and its surroundings, has
a meaning.
-/

namespace Phrasebook

namespace Quantity

open Pattern

variable {a b v w s : List Char} {argv : List Value} {nodes : List Node} {room : Nat}

/-- Text in which no character has a meaning, wherever it stands. -/
def IsPlain (w : List Char) : Prop := ∀ c ∈ w, isEscapable c = false ∧ c ≠ '_'

instance (w : List Char) : Decidable (IsPlain w) := List.decidableBAll _ w

theorem IsPlain.chunk {final : Bool} (h : IsPlain w) (hw : w ≠ []) :
    Chunk .argument final w (.literal (String.ofList w)) := by
  have hfirst : ∀ s, w ≠ '_' :: s := by
    rintro s rfl
    exact (h '_' List.mem_cons_self).2 rfl
  refine .text hw (spells_self escapes_endsArgument fun c hc => (h c hc).1) ?_ (hfirst ['*'])
  intro k i hr
  cases hr with
  | plain => exact hfirst _ rfl
  | negative => exact hfirst _ rfl

theorem derives_plain_argument (h : IsPlain w)
    (hv : ∀ afterText, Derives (.run .argument afterText) room v nodes) :
    ∃ before, (w = [] ∧ before = [] ∨ before = [.literal (String.ofList w)]) ∧
      Derives (.run .argument false) room (w ++ v) (before ++ nodes) ∧
      ∀ argv s, Writes argv nodes s → Writes argv (before ++ nodes) (w ++ s) := by
  by_cases hw : w = []
  · subst hw
    exact ⟨[], .inl ⟨rfl, rfl⟩, hv false, fun _ _ hs => hs⟩
  · exact ⟨[.literal (String.ofList w)], .inr rfl, .chunk (h.chunk hw) (hv true),
      fun _ _ hs => hs.literal w⟩

def second : Mention := ⟨['2'], []⟩

theorem proper_second : second.Proper :=
  ⟨List.cons_ne_nil _ _, List.forall_mem_singleton.2 rfl, rfl, rfl⟩

/-- A reference between two plain texts is one argument, which is written with the value in place of
the reference. -/
theorem derives_surrounded (room : Nat) (ha : IsPlain a) (hb : IsPlain b) :
    ∃ parts items, Derives (.run .argument false) (room + 1) (a ++ (second.bracketed ++ b)) parts ∧
      collapse parts = .sequence items ∧
      ∀ argv v, (Program.argument argv 2).rendered = some (String.ofList v) →
        Writes argv items (a ++ (v ++ b)) := by
  have hend : ∀ afterText, Derives (.run .argument afterText) (room + 1) [] [] := fun _ => .done
  obtain ⟨after, hafter, hderives, hwb⟩ := derives_plain_argument hb hend
  rw [List.append_nil, List.append_nil] at hderives
  simp only [List.append_nil] at hwb
  obtain ⟨before, hbefore, hparts, hwa⟩ := derives_plain_argument ha fun _ =>
    .nested (derives_mention room proper_second (by decide)) hderives
  have hwrites : ∀ argv v, (Program.argument argv 2).rendered = some (String.ofList v) →
      Writes argv (before ++ ([.sequence [.reference 2]] ++ after)) (a ++ (v ++ b)) := by
    intro argv v hv
    have hafter := hwb argv [] writes_nil
    rw [List.append_nil] at hafter
    exact hwa _ _ (hafter.reference hv)
  have hcollapse : ∀ x y xs, collapse (x :: y :: xs) = .sequence (x :: y :: xs) := fun x y xs => by
    rw [collapse] <;> simp
  obtain ⟨rfl, rfl⟩ | rfl := hbefore
  · obtain ⟨rfl, rfl⟩ | rfl := hafter
    · refine ⟨_, [.reference 2], hparts, by rw [List.nil_append, List.append_nil, collapse]; rfl,
        fun argv v hv => ?_⟩
      simpa using writes_nil.select hv
    · exact ⟨_, _, hparts, hcollapse _ _ _, hwrites⟩
  · exact ⟨_, _, hparts, hcollapse _ _ _, hwrites⟩

def quantity (a b : String) : String := "[*,_1," ++ a ++ "[_2]" ++ b ++ "]"

theorem toList_quantity (a b : String) :
    (quantity a b).toList = '[' :: (['*'] ++ (',' :: (['_', '1'] ++
      (',' :: (a.toList ++ (second.bracketed ++ b.toList))))) ++ [']']) := by
  have hopening : "[*,_1,".toList = ['[', '*', ',', '_', '1', ','] := rfl
  have hreference : "[_2]".toList = second.bracketed := rfl
  have hclosing : "]".toList = [']'] := rfl
  rw [quantity]
  simp only [String.toList_append, hopening, hreference, hclosing, List.cons_append,
    List.append_assoc, List.nil_append]

theorem parse_quantity {a b : String} (ha : IsPlain a.toList) (hb : IsPlain b.toList) :
    ∃ items, Pattern.parse (quantity a b) =
        .ok (.sequence [.call "quant" [.reference 1, .sequence items]]) ∧
      ∀ argv v, (Program.argument argv 2).rendered = some (String.ofList v) →
        Writes argv items (a.toList ++ (v ++ b.toList)) := by
  obtain ⟨parts, items, hderives, hcollapse, hwrites⟩ := derives_surrounded 98 ha hb
  refine ⟨items, Pattern.parseWithin_of_derives ?_, hwrites⟩
  have hcount : Derives (.run .argument false) 99 ['_', '1'] [.reference 1] :=
    .chunk (v := []) (.reference (.plain (.digit rfl)) (by decide)) .done
  have harguments := Derives.argument hcount (.argument hderives .none)
  have hcall : Derives (.run .outside false) 100 _ _ := .nested (.call .choice harguments) .done
  rw [hcollapse, List.append_nil, List.append_nil, List.append_nil] at hcall
  rw [toList_quantity]
  exact hcall

section Run

variable {r : Registry Extension} {h : Handle} {count : Value} {t : String} {v : String}

theorem underscore_not_mem_intText {n : Int} (ht : Value.intText n = some t) :
    '_' ∉ t.toList := by
  have hdigits : '_' ∉ Nat.toDigits 10 n.natAbs :=
    fun hmem => absurd ((numeral_digits n.natAbs).digits.2.1 _ hmem) (by decide)
  simp only [Value.intText, Option.ite_none_left_eq_some, Option.some.injEq] at ht
  obtain ⟨-, rfl⟩ := ht
  rw [String.toList_ofList, List.mem_append, not_or]
  refine ⟨?_, hdigits⟩
  split <;> decide

theorem quant_context (r : Registry Extension) (h : Handle) (count : Value) (form : String) :
    Extension.quant (h.context r) [count, .text form] =
      write r (contexts r h (stackSize - 1)) (stackSize - 2) count (.text form) .none .none := by
  have hcontext : h.context r =
      ⟨.handle h, some (writeAll r (contexts r h (stackSize - 1)) (stackSize - 2))⟩ := rfl
  rw [hcontext]
  simp only [Extension.quant, Extension.chooseForm, Extension.formText, Outcome.bind_eq,
    Value.plain, Outcome.ofText, Outcome.ok_andThen]
  rfl

theorem write_single {contexts : Nat → Context} {room : Nat} {form : String} :
    write r contexts room count (.text form) .none .none =
      match count.plain with
      | none => .fail .longNumber
      | some _ => writeForm r contexts room form count := by
  cases hs : count.plain with
  | none =>
    have hchoose : choose count (.text form) .none .none = .error .longNumber := by
      simp only [choose, hs]
    rw [write, hchoose]
    rfl
  | some s =>
    obtain ⟨chosen, hchosen, hchoose⟩ := choose_form hs form none none
    obtain rfl := List.mem_singleton.1 hchosen
    rw [write, show choose count (.text chosen) .none .none = _ from hchoose]
    exact Outcome.ok_andThen _ _

theorem ofPattern_quantity {a b : String} (ha : IsPlain a.toList) (hb : IsPlain b.toList)
    (hquant : r.get? "quant" = some Extension.quant) :
    ∃ f, Formatter.ofPattern r (quantity a b) = .ok f ∧ ∀ c count v,
      f.run c [count, .text v] =
        (Extension.quant c [count, .text (a ++ v ++ b)]).andThen fun y => .ofText y.rendered := by
  obtain ⟨items, hparse, hwrites⟩ := parse_quantity ha hb
  obtain ⟨source, hcompile⟩ := Formatter.ofPatternWithin_parsed hparse
  have hwritten : ∀ c count v, ∃ ps, Program.ofNodes r items = .ok ps ∧
      Program.join c [c.self, count, .text v] ps = .ok (a ++ v ++ b) := by
    intro c count v
    obtain ⟨ps, hps, -, hjoin⟩ :=
      hwrites [c.self, count, .text v] v.toList (by rw [String.ofList_toList]; rfl) r
    refine ⟨ps, hps, (hjoin c).trans ?_⟩
    rw [String.ofList_append, String.ofList_append, String.ofList_toList, String.ofList_toList,
      String.ofList_toList, String.append_assoc]
  obtain ⟨ps, hps, -⟩ := hwritten ⟨.none, none⟩ .none ""
  have hnodes : Program.ofNodes r [.call "quant" [.reference 1, .sequence items]] =
      .ok [.call Extension.quant [.select 1, .concat ps]] := by
    simp only [Program.ofNodes, Program.ofNode, Registry.resolve, hquant, hps]
    rfl
  refine ⟨⟨quantity a b, source, .concat [.call Extension.quant [.select 1, .concat ps]]⟩, ?_,
    fun c count v => ?_⟩
  · rw [← Formatter.ofPatternWithin_default, hcompile, hnodes]
    rfl
  · obtain ⟨ps', hps', hjoin⟩ := hwritten c count v
    obtain rfl := Except.ok.inj (hps.symm.trans hps')
    have hcount : Program.argument [c.self, count, .text v] 1 = count := rfl
    simp only [Formatter.run_concat, Program.join, Program.eval, Program.evalAll, Outcome.bind_eq,
      Outcome.pure_eq, Outcome.ok_andThen, hjoin, hcount, String.append_empty]
    congr 1
    funext y
    exact Outcome.andThen_ok _

end Run

end Quantity

namespace Handle

open Quantity

variable {r : Registry Extension} {l : Lexicon} {key : String}

theorem translate_default (h : Handle) (r : Registry Extension) (l : Lexicon) (key : String)
    {args : List Value} (hargs : ∀ arg ∈ args, namedDomain arg = none) :
    h.translate r l key args none = h.translateIn r l h.defaultDomain key args := by
  have hdomain : h.selectDomain args none = .ok h.defaultDomain := by
    simp only [selectDomain, Option.filter_none, List.filterMap_eq_nil_iff.2 hargs]
    rfl
  rw [translate, hdomain]

theorem translateIn_compiled (h : Handle) {domain pattern : String} {x : Entry} {f : Formatter}
    (hx : l.entry? domain key = some x) (hc : Entry.Compiles r (.raw pattern) x)
    (hf : Formatter.ofPattern r pattern = .ok f) (args : List Value) :
    (h.translateIn r l domain key args).1 = f.run (h.context r) args := by
  cases hc with
  | kept => simp only [translateIn, Lexicon.formatter, hx, hf]
  | compiled hg =>
    obtain rfl := Except.ok.inj (hf.symm.trans hg)
    simp only [translateIn, Lexicon.formatter, hx]

/-- A form in which a value stands is written as it is if nothing in it has a meaning, but otherwise
what is read is a pattern: a reference in the value is replaced, its escapes are taken away, and its
brackets are directives. -/
theorem translate_quantity (h : Handle) {a b : String} {x : Entry} (ha : IsPlain a.toList)
    (hb : IsPlain b.toList) (hquant : r.get? "quant" = some Extension.quant)
    (hx : l.entry? h.defaultDomain key = some x) (hc : Entry.Compiles r (.raw (quantity a b)) x)
    {count : Value} (hcount : (∃ n, count = .int n) ∨ ∃ s, count = .text s) (v : String) :
    let form := a ++ v ++ b
    let answer := (h.translate r l key [count, .text v] none).1
    (count.plain = none ∧ answer = .fail .longNumber) ∨
    ∃ t, count.plain = some t ∧
      answer = (writeForm r (contexts r h (stackSize - 1)) (stackSize - 2) form count).andThen
        (fun y => .ofText y.rendered) ∧
      (Inert form.toList → answer = .ok form) ∧
      (Simple form → answer = .ok (writtenForm h t form) ∧
        ((∀ s, count = .text s → '_' ∉ s.toList) →
          (writtenForm h t form = form ↔ Inert form.toList))) := by
  intro form answer
  have hargs : ∀ arg ∈ [count, .text v], namedDomain arg = none := by
    obtain ⟨n, rfl⟩ | ⟨s, rfl⟩ := hcount <;> simp [namedDomain]
  obtain ⟨f, hf, hrun⟩ := ofPattern_quantity ha hb hquant
  have hanswer : answer =
      (write r (contexts r h (stackSize - 1)) (stackSize - 2) count (.text form) .none
        .none).andThen fun y => .ofText y.rendered := by
    rw [← quant_context, ← hrun]
    simp only [answer, h.translate_default r l key hargs, h.translateIn_compiled hx hc hf]
  rw [write_single] at hanswer
  cases ht : count.plain with
  | none =>
    rw [ht] at hanswer
    exact .inl ⟨rfl, hanswer⟩
  | some t =>
    rw [ht] at hanswer
    have hrendered : count.rendered = some t := by
      obtain ⟨n, rfl⟩ | ⟨s, rfl⟩ := hcount <;> exact ht
    have hsimple : Simple form → answer = .ok (writtenForm h t form) := by
      intro hs
      have hform : writeForm r (contexts r h (stackSize - 1)) (stackSize - 2) form count =
          .ok (.text (writtenForm h t form)) := writeForm_simple (by decide) rfl hrendered hs
      simp only [hanswer, hform, Outcome.ok_andThen]
      rfl
    refine .inr ⟨t, rfl, hanswer, fun hi => ?_, fun hs => ⟨hsimple hs, fun hscore => ?_⟩⟩
    · rw [hsimple hi.simple, writtenForm, hi.written, String.ofList_toList]
    · refine writtenForm_eq_self_iff h ?_ hs.unbracketed
      obtain ⟨n, rfl⟩ | ⟨s, rfl⟩ := hcount
      · exact underscore_not_mem_intText ht
      · obtain rfl := Option.some.inj ht
        exact hscore _ rfl

/-- The value `my_1` has a reference in it, which is replaced with the count. -/
theorem translate_quantity_reference :
    let h : Handle := ⟨0, "en", "*", .marker⟩
    let l := Lexicon.ofData "en" (.ofList [("*", .ofList [("k", "[*,_1,a[_2]b]")])])
    IsPlain "a".toList ∧ IsPlain "b".toList ∧
      l.entry? "*" "k" = some (.raw "[*,_1,a[_2]b]") ∧
      (h.translate (.builtins .catalogue) l "k" [.int 1, .text "my_1"] none).1 = .ok "amy1b" ∧
      ¬ Inert "amy_1b".toList := by
  intro h l
  have ha : IsPlain "a".toList := by decide
  have hb : IsPlain "b".toList := by decide
  have hentry : l.entry? h.defaultDomain "k" = some (.raw (quantity "a" "b")) := rfl
  have hcount : Value.plain (.int 1) = some "1" := by decide
  obtain ⟨hnone, -⟩ | ⟨t, ht, -, -, hsimple⟩ :=
    h.translate_quantity ha hb (r := .builtins .catalogue) rfl hentry .kept (.inl ⟨1, rfl⟩) "my_1"
  · exact absurd (hcount.symm.trans hnone) nofun
  · obtain rfl := Option.some.inj (hcount.symm.trans ht)
    have hs : Simple ("a" ++ "my_1" ++ "b") := ⟨by decide, by decide⟩
    obtain ⟨hanswer, hself⟩ := hsimple hs
    have hwritten : writtenForm h "1" ("a" ++ "my_1" ++ "b") = "amy1b" := by decide
    refine ⟨ha, hb, hentry, hwritten ▸ hanswer, fun hi => ?_⟩
    exact absurd (hwritten.symm.trans ((hself nofun).2 hi)) (by decide)

end Handle

end Phrasebook
