import Phrasebook.Locale.Catalogue
import Phrasebook.Handle
import Phrasebook.Proofs.Formatter.Composition
import Phrasebook.Proofs.Quantity.Form

/-!
# Writing a form

The pattern of a form without opening brackets can always be read: it is made of texts and
references, by induction on the references of the form, where a hidden one joins the text around it.
It has no calls, so that it writes the same whatever is registered and however much room is left.
-/

namespace Phrasebook

namespace Quantity

open Pattern

variable {argv : List Value} {nodes : List Node} {s t u w : List Char} {form : String}
  {m : Mention} {ms : List Mention}

/-- Nodes without calls, and what they write to these arguments. -/
def Writes (argv : List Value) (nodes : List Node) (t : List Char) : Prop :=
  ∀ r, ∃ ps, Program.ofNodes r nodes = .ok ps ∧
    (∀ contexts room, placedAll contexts room ps = ps) ∧
      ∀ c, Program.join c argv ps = .ok (String.ofList t)

theorem writes_nil : Writes argv [] [] := fun r =>
  ⟨[], by rw [Program.ofNodes], fun _ _ => by rw [placedAll], fun _ => by rw [Program.join]⟩

theorem Writes.cons {node : Node} {p : Program} (h : Writes argv nodes t)
    (hn : ∀ r, Program.ofNode r node = .ok p)
    (hp : ∀ contexts room, placed contexts room p = p)
    (hw : ∀ c, Program.join c argv [p] = .ok (String.ofList s)) :
    Writes argv (node :: nodes) (s ++ t) := by
  intro r
  obtain ⟨ps, hps, hplaced, hjoin⟩ := h r
  refine ⟨p :: ps, ?_, fun contexts room => ?_, fun c => ?_⟩
  · rw [Program.ofNodes, hn r]
    simp only [hps]
    rfl
  · rw [placedAll, hp, hplaced]
  · rw [Program.join_cons, hw, hjoin, Outcome.ok_andThen, Outcome.ok_andThen, String.ofList_append]

theorem Writes.literal (h : Writes argv nodes t) (s : List Char) :
    Writes argv (.literal (String.ofList s) :: nodes) (s ++ t) := by
  refine h.cons (p := .text (String.ofList s)) (fun r => by rw [Program.ofNode])
    (fun contexts room => by rw [placed]) fun c => ?_
  simp [Program.join, Program.eval, Outcome.bind_eq, Outcome.pure_eq]

theorem join_select {i : Int} (hs : (Program.argument argv i).rendered = some (String.ofList s))
    (c : Context) : Program.join c argv [.select i] = .ok (String.ofList s) := by
  simp [Program.join, Program.eval, Outcome.bind_eq, Outcome.pure_eq, hs, Outcome.ofText]

theorem Writes.select {i : Int} (h : Writes argv nodes t)
    (hs : (Program.argument argv i).rendered = some (String.ofList s)) :
    Writes argv (.reference i :: nodes) (s ++ t) :=
  h.cons (p := .select i) (fun r => by rw [Program.ofNode]) (fun contexts room => by rw [placed])
    (join_select hs)

theorem Writes.reference {i : Int} (h : Writes argv nodes t)
    (hs : (Program.argument argv i).rendered = some (String.ofList s)) :
    Writes argv (.sequence [.reference i] :: nodes) (s ++ t) := by
  refine h.cons (p := .concat [.select i]) (fun r => ?_) (fun contexts room => ?_) fun c => ?_
  · simp only [Program.ofNode, Program.ofNodes]
    rfl
  · simp only [placed, placedAll]
  · rw [Program.join, Program.eval, join_select hs]
    simp [Program.join, Outcome.bind_eq, Outcome.pure_eq]

theorem derives_mention (room : Nat) (hm : m.Proper) (hk : m.digits.length ≤ maxReferenceDigits) :
    Derives .directive (room + 1) m.bracketed [.sequence [.reference m.index]] := by
  have hnumeral : Pattern.Numeral m.digits m.index := numeral_ofDigits hm.nonempty hm.digits
  have htoken : Token m.bare (.list [.reference m.index]) := .reference (.plain hnumeral) hk
  have h : Derives .directive (room + 1) ('[' :: (m.bare ++ [] ++ [']'])) _ :=
    .list htoken .none (List.cons_ne_nil _ _)
  rwa [List.append_nil, List.append_nil] at h

theorem spells_form (hw : '[' ∉ w) : Spells opensDirective true w (decode w) :=
  spells_text fun _ hc => decide_eq_false fun he => hw (he ▸ hc)

theorem spells_plain (h : ∀ c ∈ w, c ≠ '~' ∧ opensDirective c = false) :
    Spells opensDirective false w w := by
  induction w with
  | nil => exact .nil
  | cons c w ih =>
    obtain ⟨⟨ht, hc⟩, hw⟩ := List.forall_mem_cons.1 h
    exact .plain ht hc (ih hw)

theorem spells_hidden (hm : m.Proper) (h : Spells opensDirective false w t) :
    Spells opensDirective false (w ++ '~' :: m.bracketed) (t ++ m.bracketed) := by
  have hdigit : ∀ c ∈ m.digits, c ≠ '~' ∧ opensDirective c = false := by
    intro c hc
    have hd := isEscapable_digit (hm.digits c hc)
    simp only [isEscapable, Bool.or_eq_false_iff, decide_eq_false_iff_not] at hd
    exact ⟨hd.2, decide_eq_false hd.1.1.1⟩
  refine h.append rfl (.escape rfl (spells_plain ?_))
  refine List.forall_mem_append.2 ⟨List.forall_mem_cons.2 ⟨by decide, hdigit⟩, ?_⟩
  exact List.forall_mem_singleton.2 (by decide)

theorem derives_last {room : Nat} (h : Spells opensDirective true w t) :
    ∃ nodes, Derives (.run .outside false) room w nodes ∧ Writes argv nodes t := by
  by_cases hw : w = []
  · subst hw
    cases h with
    | nil => exact ⟨[], .done, writes_nil⟩
  · refine ⟨[.literal (String.ofList t)], ?_, ?_⟩
    · have hrun : Derives (.run .outside false) room (w ++ []) _ := .chunk (.plain hw h) .done
      rwa [List.append_nil] at hrun
    · simpa using writes_nil.literal t

theorem derives_before {room : Nat} {v : List Char} {i : Int} {x : List Char}
    (h : Spells opensDirective false w t)
    (hx : Derives .directive room x [.sequence [.reference i]])
    (hv : Derives (.run .outside false) room v nodes) (hs : Writes argv nodes s)
    (hi : (Program.argument argv i).rendered = some (String.ofList u)) :
    ∃ nodes, Derives (.run .outside false) room (w ++ (x ++ v)) nodes ∧
      Writes argv nodes (t ++ (u ++ s)) := by
  by_cases hw : w = []
  · subst hw
    cases h with
    | nil =>
      rw [List.nil_append, List.nil_append]
      exact ⟨_, .nested hx hv, hs.reference hi⟩
  · refine ⟨_, .chunk (.plain hw ?_) (.nested hx hv), (hs.reference hi).literal t⟩
    obtain ⟨⟨y, rfl⟩, -⟩ := hx.bracketed
    exact h

theorem derives_form (room : Nat) {value : Nat → List Char}
    (hvalue : ∀ n : Nat, (Program.argument argv n).rendered = some (String.ofList (value n)))
    (hms : ∀ m ∈ ms, m.Proper ∧ m.digits.length ≤ maxReferenceDigits ∧ '[' ∉ m.text)
    (hw : '[' ∉ w) (hu : Spells opensDirective false u t) :
    ∃ nodes, Derives (.run .outside false) (room + 1)
      (u ++ (w ++ behind Mention.bracketed ms)) nodes ∧
        Writes argv nodes (t ++ written value w ms) := by
  induction ms generalizing u t w with
  | nil =>
    rw [behind_nil, List.append_nil]
    exact derives_last (hu.append rfl (spells_form hw))
  | cons m ms ih =>
    obtain ⟨⟨hm, hk, htext⟩, hms⟩ := List.forall_mem_cons.1 hms
    rw [behind_cons, written]
    obtain ⟨hd, hclosed⟩ | ⟨hd, v, s, hv, hs, hopen⟩ := (spells_form hw).closed_or_dangling
    · -- The reference stands between two texts that are read apart.
      obtain ⟨nodes, hrest, hwrites⟩ := ih hms htext .nil
      rw [List.nil_append] at hrest hwrites
      obtain ⟨all, hall, hout⟩ := derives_before (hu.append rfl hclosed)
        (derives_mention room hm hk) hrest hwrites (hvalue m.index)
      refine ⟨all, ?_, ?_⟩
      · rwa [List.append_assoc] at hall
      · rw [if_neg (by simp [hd])]
        simpa only [List.append_assoc] using hout
    · -- The reference goes on the text before it, and the text behind it goes on that.
      obtain ⟨nodes, hrest, hwrites⟩ := ih hms htext (hu.append rfl (spells_hidden hm hopen))
      refine ⟨nodes, ?_, ?_⟩
      · rw [hv]
        simpa only [List.append_assoc, List.cons_append, List.nil_append] using hrest
      · rw [if_pos hd, hs, List.dropLast_concat]
        simpa only [List.append_assoc] using hwrites

/-- A form without brackets whose references are not too long. -/
structure Simple (form : String) : Prop where
  unbracketed : '[' ∉ form.toList
  short : ∀ m ∈ (cut form.toList).2, m.digits.length ≤ maxReferenceDigits

theorem Simple.pieces (h : Simple form) :
    '[' ∉ (cut form.toList).1 ∧
      ∀ m ∈ (cut form.toList).2, m.Proper ∧ m.digits.length ≤ maxReferenceDigits ∧ '[' ∉ m.text := by
  have hform := h.unbracketed
  rw [← cut_behind form.toList, List.mem_append, not_or] at hform
  refine ⟨hform.1, fun m hm => ⟨proper_cut _ m hm, h.short m hm, fun ht => hform.2 ?_⟩⟩
  exact List.mem_flatMap.2 ⟨m, hm, List.mem_append_right _ ht⟩

def valueOf (h : Handle) (count : String) : Nat → List Char
  | 0 => h.text.toList
  | 1 => count.toList
  | _ => []

theorem rendered_argument (h : Handle) {count : Value} {t : String} (ht : count.rendered = some t)
    (n : Nat) :
    (Program.argument [.handle h, count] n).rendered = some (String.ofList (valueOf h t n)) := by
  match n with
  | 0 => simp [Program.argument, Value.rendered, Value.plain, Value.quoted, valueOf]
  | 1 => simpa [Program.argument, valueOf] using ht
  | n + 2 =>
    have hpos : (0 : Int) ≤ ((n + 2 : Nat) : Int) := Int.natCast_nonneg _
    simp only [Program.argument, if_pos hpos, Int.toNat_natCast]
    rfl

def writtenForm (h : Handle) (count form : String) : String :=
  String.ofList (written (valueOf h count) (cut form.toList).1 (cut form.toList).2)

theorem writeForm_simple {h : Handle} {r : Registry Extension} {contexts : Nat → Context}
    {room : Nat} (hroom : readingRoom ≤ room) (hself : (contexts room).self = .handle h)
    {count : Value} {t : String} (ht : count.rendered = some t) (hform : Simple form) :
    writeForm r contexts room form count = .ok (.text (writtenForm h t form)) := by
  obtain ⟨hw, hms⟩ := hform.pieces
  obtain ⟨nodes, hderives, hwrites⟩ :=
    derives_form 99 (rendered_argument h ht) hms hw .nil
  rw [List.nil_append, ← (bracketed_cut hform.unbracketed).1] at hderives
  rw [List.nil_append] at hwrites
  have hparse : Pattern.parseWithin Pattern.defaultDepth (template form) = .ok (.sequence nodes) := by
    refine Pattern.parseWithin_of_derives ?_
    rw [template, String.toList_ofList]
    exact hderives
  obtain ⟨source, hcompile⟩ := Formatter.ofPatternWithin_parsed hparse
  obtain ⟨ps, hps, hplaced, hjoin⟩ := hwrites r
  have hformatter : Formatter.ofPattern r (template form) =
      .ok ⟨template form, source, .concat ps⟩ := by
    rw [← Formatter.ofPatternWithin_default, hcompile, hps]
    rfl
  rw [writeForm, if_neg (Nat.not_lt.2 hroom), hformatter]
  simp only [Outcome.ofExcept, Outcome.bind_eq, Outcome.ok_andThen, Outcome.pure_eq, placed,
    hplaced, Formatter.run_concat, hself, hjoin]
  rfl

def formValue (form : Option String) : Value := form.elim .none .text

theorem choose_form {count : Value} {s : String} (hs : count.plain = some s) (singular : String)
    (plural zero : Option String) :
    ∃ form ∈ singular :: (plural.toList ++ zero.toList),
      choose count (.text singular) (formValue plural) (formValue zero) = .ok (.text form) := by
  simp only [choose, hs]
  split
  · exact ⟨singular, List.mem_cons_self, rfl⟩
  · split
    · rename_i hzero
      cases zero with
      | none => simp [formValue, Value.holds] at hzero
      | some form => exact ⟨form, by simp, rfl⟩
    · cases plural with
      | none => exact ⟨singular, List.mem_cons_self, rfl⟩
      | some form => exact ⟨form, by simp, rfl⟩

theorem rendered_of_plain {count : Value} {s : String} (hs : count.plain = some s) :
    ∃ t, count.rendered = some t := by
  cases count with
  | none => exact ⟨"", rfl⟩
  | _ => exact ⟨s, hs⟩

end Quantity

open Quantity in
/-- What is written for a count. The chosen form is written with every reference replaced, if no
tilde hides one of them; the tilde that hides one is written as the bracket that it escapes. -/
theorem Handle.quantify_written (h : Handle) (r : Registry Extension) (count : Value)
    (singular : String) (plural zero : Option String)
    (hforms : ∀ form ∈ singular :: (plural.toList ++ zero.toList), Simple form) :
    let answer := h.quantify r [count, .text singular, formValue plural, formValue zero]
    (count.plain = none ∧ answer = .fail .longNumber) ∨
    ∃ t form, count.rendered = some t ∧ form ∈ singular :: (plural.toList ++ zero.toList) ∧
      choose count (.text singular) (formValue plural) (formValue zero) = .ok (.text form) ∧
      answer = .ok (.text (writtenForm h t form)) ∧
      (writtenForm h t form =
          String.ofList (substituted (valueOf h t) (cut form.toList).1 (cut form.toList).2) ↔
        hides (cut form.toList).1 (cut form.toList).2 = false) := by
  intro answer
  cases hs : count.plain with
  | none =>
    refine .inl ⟨rfl, ?_⟩
    have hchoose : choose count (.text singular) (formValue plural) (formValue zero) =
        .error .longNumber := by simp only [choose, hs]
    simp only [answer, Handle.quantify, writeAll, write, hchoose]
    rfl
  | some s =>
    obtain ⟨t, ht⟩ := rendered_of_plain hs
    obtain ⟨form, hform, hchoose⟩ := choose_form hs singular plural zero
    refine .inr ⟨t, form, ht, hform, hchoose, ?_, ?_⟩
    · simp only [answer, Handle.quantify, writeAll, write, hchoose]
      exact (Outcome.ok_andThen _ _).trans
        (writeForm_simple (by decide) rfl ht (hforms form hform))
    · rw [writtenForm, ← written_eq_iff, String.ofList_inj]

open Quantity in
/-- A tilde hides the first of two references to the count. -/
theorem Handle.quantify_written_tilde :
    let h : Handle := ⟨0, "en", "*", .marker⟩
    Simple "~_1 of _1" ∧
      h.quantify (.builtins .catalogue) [.int 3, .text "~_1 of _1", .none, .none] =
        .ok (.text "[_1] of 3") := by
  intro h
  have hsimple : Simple "~_1 of _1" := ⟨by decide, by decide⟩
  have hcount : Value.rendered (.int 3) = some "3" := by decide
  obtain ⟨hnone, -⟩ | ⟨t, form, ht, hform, -, hanswer, -⟩ :=
    quantify_written h (.builtins .catalogue) (.int 3) "~_1 of _1" none none (by simpa using hsimple)
  · exact absurd (hcount.symm.trans hnone) nofun
  · obtain rfl := Option.some.inj (hcount.symm.trans ht)
    obtain rfl := List.mem_singleton.1 hform
    have htext : writtenForm h "3" "~_1 of _1" = "[_1] of 3" := by decide
    exact ⟨hsimple, htext ▸ hanswer⟩

end Phrasebook
