import Phrasebook.Locale.Catalogue
import Phrasebook.Proofs.Quantity.Choice
import Phrasebook.Proofs.Quantity.Writing

/-!
# Arguments that are not there

A phrase is made of text, of references and of quantities whose forms are references. A reference
that selects no argument writes nothing. A quantity falls back to its other forms where one is not
there; where no form is left, the word for nothing is written in its place.
-/

namespace Phrasebook

open Quantity

theorem Outcome.andThen_congr {α β : Type} {o : Outcome α} {f g : α → Outcome β}
    (h : ∀ x, o.result = .ok x → f x = g x) : o.andThen f = o.andThen g := by
  obtain ⟨notices, fault | x⟩ := o
  · rfl
  · simp only [andThen, h x rfl]

theorem Outcome.result_andThen {α β : Type} {o : Outcome α} {f : α → Outcome β} {y : β} :
    (o.andThen f).result = .ok y ↔ ∃ x, o.result = .ok x ∧ (f x).result = .ok y := by
  obtain ⟨notices, fault | x⟩ := o <;> simp [andThen]

/-- Patterns of text, references, and quantities whose forms are single references. -/
inductive Phrase where
  | text (s : String)
  | argument (index : Int)
  | quantity (count : Phrase) (forms : List Int)
  | sequence (parts : List Phrase)

namespace Phrase

instance : Inhabited Phrase := ⟨sequence []⟩

mutual

def node : Phrase → Pattern.Node
  | text s => .literal s
  | argument i => .reference i
  | quantity count forms => .call "quant" (node count :: forms.map .reference)
  | sequence parts => .sequence (nodes parts)

def nodes : List Phrase → List Pattern.Node
  | [] => []
  | p :: ps => node p :: nodes ps

end

def Outside (argv : List Value) (i : Int) : Prop := i < -argv.length ∨ argv.length ≤ i

instance (argv : List Value) (i : Int) : Decidable (Outside argv i) :=
  inferInstanceAs (Decidable (_ ∨ _))

/-- What a part of a phrase comes to. -/
inductive Piece where
  | written (s : String)
  /-- A reference selects no argument. -/
  | noArgument
  /-- None of the forms that would do for the count is there. -/
  | noForm
  deriving DecidableEq, Repr

/-- What is written for a piece, with a word for a form that is not there. -/
def Piece.text (word : String) : Piece → String
  | written s => s
  | noArgument => ""
  | noForm => word

def textOf (word : String) (ps : List Piece) : String := String.join (ps.map (Piece.text word))

/-- The text that a value puts where it stands, and none for nothing. -/
def given : Value → Outcome (Option String)
  | .none => .ok none
  | v => do return some (← .ofText v.rendered)

def formAt (argv : List Value) (i : Int) : Outcome (Option String) :=
  if Outside argv i then .ok none else given (Program.argument argv i)

/-- The form for a count among those that are there. The form for many stands for the form for none,
and the form for one for both. -/
def chosen (count : String) (singular plural zero : Option String) : Option String :=
  if (Numeral.read count).any Decimal.isOne then singular
  else if (Numeral.read count).any Decimal.isZero then
    ((zero.filter (· ≠ "")).or plural).or singular
  else plural.or singular

section Writing

variable (word : String) (r : Registry Extension) (h : Handle) (argv : List Value)

def formText (form : String) (count : Value) : Outcome String := do
  let v ← writeForm r (contexts r h (stackSize - 1)) (stackSize - 2) form count
  .ofText v.rendered

def choice (count : Value) (singular plural zero : Option String) : Outcome Piece := do
  let s ← .ofText count.plain
  match chosen s singular plural zero with
  | some form => return .written (← formText r h form count)
  | none => return .noForm

/-- A quantity without any form has an empty one. -/
def quantityPiece (count : Value) : List Int → Outcome Piece
  | [] => choice r h count (some "") none none
  | [i] => do choice r h count (← formAt argv i) none none
  | [i, j] => do choice r h count (← formAt argv i) (← formAt argv j) none
  | [i, j, k] => do choice r h count (← formAt argv i) (← formAt argv j) (← formAt argv k)
  | _ => .fail .argumentCount

mutual

/-- The pieces of a phrase, in order. A count that is a reference is taken as it is, and any other
count is a text. -/
def pieces : Phrase → Outcome (List Piece)
  | text s => .ok [.written s]
  | argument i =>
    if Outside argv i then .ok [.noArgument]
    else do return [.written (← .ofText (Program.argument argv i).rendered)]
  | quantity (argument i) forms => do
    return [← quantityPiece r h argv (Program.argument argv i) forms]
  | quantity count forms => do
    let ps ← pieces count
    return [← quantityPiece r h argv (.text (textOf word ps)) forms]
  | sequence parts => piecesAll parts

def piecesAll : List Phrase → Outcome (List Piece)
  | [] => .ok []
  | p :: ps => do
    let xs ← pieces p
    let ys ← piecesAll ps
    return xs ++ ys

end

def value : Phrase → Outcome Value
  | argument i => .ok (Program.argument argv i)
  | p => do return .text (textOf word (← pieces word r h argv p))

def writing (p : Phrase) : Outcome String := do return textOf word (← pieces word r h argv p)

mutual

/-- Each quantity has a form for its count, also where a quantity gives the count of another. -/
def Complete : Phrase → Prop
  | text _ => True
  | argument _ => True
  | quantity count forms => Complete count ∧
    ∀ v, (value "" r h argv count).result = .ok v →
      (quantityPiece r h argv v forms).result ≠ .ok .noForm
  | sequence parts => CompleteAll parts

def CompleteAll : List Phrase → Prop
  | [] => True
  | p :: ps => Complete p ∧ CompleteAll ps

end

end Writing

section Programs

mutual

def program : Phrase → Program
  | text s => .text s
  | argument i => .select i
  | quantity count forms => .call Extension.quant (program count :: forms.map .select)
  | sequence parts => .concat (programs parts)

def programs : List Phrase → List Program
  | [] => []
  | p :: ps => program p :: programs ps

end

variable {r : Registry Extension}

theorem ofNodes_references (r : Registry Extension) (forms : List Int) :
    Program.ofNodes r (forms.map .reference) = .ok (forms.map .select) := by
  induction forms with
  | nil => rfl
  | cons i forms ih =>
    rw [List.map_cons, Program.ofNodes, Program.ofNode]
    simp only [ih]
    rfl

mutual

theorem ofNode_node (hr : r.resolve "quant" = .ok Extension.quant) :
    ∀ p : Phrase, Program.ofNode r p.node = .ok p.program
  | text s => by rw [node, Program.ofNode, program]
  | argument i => by rw [node, Program.ofNode, program]
  | quantity count forms => by
    rw [node, Program.ofNode, hr]
    simp only [Program.ofNodes, ofNode_node hr count, ofNodes_references, program]
    rfl
  | sequence parts => by
    rw [node, Program.ofNode, ofNodes_nodes hr parts, program]
    rfl

theorem ofNodes_nodes (hr : r.resolve "quant" = .ok Extension.quant) :
    ∀ ps : List Phrase, Program.ofNodes r (nodes ps) = .ok (programs ps)
  | [] => by rw [nodes, Program.ofNodes, programs]
  | p :: ps => by
    rw [nodes, Program.ofNodes, ofNode_node hr p]
    simp only [ofNodes_nodes hr ps, programs]
    rfl

end

end Programs

section Giving

variable {c : Context} {argv : List Value} {i : Int}

theorem argument_outside (ho : Outside argv i) : Program.argument argv i = .none := by
  unfold Program.argument
  obtain hlow | hhigh := ho
  · have hneg : ¬ 0 ≤ i := by omega
    have hbefore : ¬ 0 ≤ (argv.length : Int) + i := by omega
    simp only [if_neg hneg, if_neg hbefore]
  · have hpos : 0 ≤ i := by omega
    have hbehind : argv.length ≤ i.toNat := by omega
    simp only [if_pos hpos, List.getElem?_eq_none hbehind, Option.getD_none]

theorem formAt_eq (argv : List Value) (i : Int) :
    formAt argv i = given (Program.argument argv i) := by
  by_cases ho : Outside argv i
  · rw [formAt, if_pos ho, argument_outside ho]
    rfl
  · rw [formAt, if_neg ho]

theorem given_some {v : Value} (hv : v ≠ .none) :
    given v = (Outcome.ofText v.plain).andThen fun s => .ok (some s) := by
  cases v with
  | none => exact absurd rfl hv
  | _ => rfl

theorem ofText_plain (v : Value) :
    Outcome.ofText v.plain = (given v).andThen fun s => .ok (s.getD "None") := by
  by_cases hv : v = .none
  · rw [hv]
    rfl
  · rw [given_some hv, Outcome.andThen_assoc]
    simp only [Outcome.ok_andThen, Option.getD_some]
    exact (Outcome.andThen_ok _).symm

theorem ofText_rendered (v : Value) :
    Outcome.ofText v.rendered = (given v).andThen fun s => .ok (s.getD "") := by
  by_cases hv : v = .none
  · rw [hv]
    rfl
  · have hplain : v.rendered = v.plain := by
      cases v with
      | none => exact absurd rfl hv
      | _ => rfl
    rw [hplain, given_some hv, Outcome.andThen_assoc]
    simp only [Outcome.ok_andThen, Option.getD_some]
    exact (Outcome.andThen_ok _).symm

theorem formText_eq (v : Value) :
    Extension.formText v = (given v).andThen fun s => .ok (formValue s) := by
  by_cases hv : v = .none
  · rw [hv]
    rfl
  · rw [given_some hv, Outcome.andThen_assoc, Extension.formText.eq_2 v hv]
    simp only [Outcome.ok_andThen]
    rfl

/-- What a quantity hands on: the texts of the forms that are there, the word for nothing in place
of a form for one that is nothing, and nothing in place of any other form that is nothing. -/
theorem chooseForm_eq {q : List Value → Outcome Value} (hc : c.quantify = some q)
    (count singular plural zero : Value) :
    Extension.chooseForm c count singular plural zero =
      (given singular).andThen fun s =>
        (given plural).andThen fun p => (given zero).andThen fun z =>
        q [count, .text (s.getD "None"), formValue p, formValue z] := by
  simp only [Extension.chooseForm, hc, ofText_plain, formText_eq, Outcome.bind_eq,
    Outcome.andThen_assoc, Outcome.ok_andThen]

end Giving

section Choosing

variable {r : Registry Extension} {h : Handle} {argv : List Value}

theorem choose_chosen {count : Value} {t : String} (ht : count.plain = some t)
    (singular plural zero : Option String) :
    choose count (.text (singular.getD "None")) (formValue plural) (formValue zero) =
      .ok (.text ((chosen t singular plural zero).getD "None")) := by
  rw [choose_read ht, chosen]
  split_ifs
  · rfl
  · cases (zero.filter (· ≠ "")).or plural <;> rfl
  · cases plural <;> rfl

theorem writeForm_text (contexts : Nat → Context) (room : Nat) (form : String) (count : Value) :
    writeForm r contexts room form count =
      (writeForm r contexts room form count).andThen fun v =>
        (Outcome.ofText v.rendered).andThen fun s => .ok (.text s) := by
  unfold writeForm
  split_ifs
  · rfl
  · simp only [Outcome.bind_eq, Outcome.pure_eq, Outcome.andThen_assoc, Outcome.ok_andThen,
      Program.ofText_text]

theorem writeForm_word {count : Value} {t : String} (ht : count.plain = some t) :
    writeForm r (contexts r h (stackSize - 1)) (stackSize - 2) "None" count =
      .ok (.text "None") := by
  obtain ⟨t', ht'⟩ := rendered_of_plain ht
  have hsimple : Simple "None" := ⟨by decide, by decide⟩
  rw [writeForm_simple (by decide) rfl ht' hsimple]
  rfl

theorem write_eq (count : Value) (singular plural zero : Option String) :
    write r (contexts r h (stackSize - 1)) (stackSize - 2) count (.text (singular.getD "None"))
        (formValue plural) (formValue zero) =
      (choice r h count singular plural zero).andThen fun piece =>
        .ok (.text (piece.text "None")) := by
  cases ht : count.plain with
  | none =>
    have hchoose : choose count (.text (singular.getD "None")) (formValue plural) (formValue zero) =
        .error .longNumber := by simp only [choose, ht]
    rw [write, hchoose, choice, ht]
    rfl
  | some t =>
    rw [write, choose_chosen ht, choice, ht]
    simp only [Outcome.ofExcept, Outcome.ofText, Outcome.bind_eq, Outcome.ok_andThen]
    cases chosen t singular plural zero with
    | none =>
      rw [Option.getD_none, writeForm_word ht]
      rfl
    | some form =>
      rw [Option.getD_some, writeForm_text]
      simp only [formText, Outcome.bind_eq, Outcome.pure_eq, Outcome.andThen_assoc,
        Outcome.ok_andThen, Piece.text]

theorem chooseForm_choice (count singular plural zero : Value) :
    Extension.chooseForm (h.context r) count singular plural zero =
      (given singular).andThen fun s =>
        (given plural).andThen fun p => (given zero).andThen fun z =>
        (choice r h count s p z).andThen fun piece => .ok (.text (piece.text "None")) := by
  have hq : (h.context r).quantify =
      some (writeAll r (contexts r h (stackSize - 1)) (stackSize - 2)) := rfl
  simp only [chooseForm_eq hq, writeAll, write_eq]

theorem quant_piece (count : Value) (forms : List Int) :
    Extension.quant (h.context r) (count :: forms.map (Program.argument argv)) =
      (quantityPiece r h argv count forms).andThen fun piece =>
        .ok (.text (piece.text "None")) := by
  have hempty : given (.text "") = .ok (some "") := rfl
  have hnothing : given .none = .ok none := rfl
  match forms with
  | [] =>
    simp only [List.map_nil, Extension.quant, chooseForm_choice, hempty, hnothing,
      Outcome.ok_andThen, quantityPiece]
  | [i] =>
    simp only [List.map_cons, List.map_nil, Extension.quant, chooseForm_choice, hnothing,
      Outcome.ok_andThen, quantityPiece, formAt_eq, Outcome.bind_eq, Outcome.andThen_assoc]
  | [i, j] =>
    simp only [List.map_cons, List.map_nil, Extension.quant, chooseForm_choice, hnothing,
      Outcome.ok_andThen, quantityPiece, formAt_eq, Outcome.bind_eq, Outcome.andThen_assoc]
  | [i, j, k] =>
    simp only [List.map_cons, List.map_nil, Extension.quant, chooseForm_choice, quantityPiece,
      formAt_eq, Outcome.bind_eq, Outcome.andThen_assoc]
  | i :: j :: k :: l :: rest => rfl

end Choosing

section Evaluating

variable {word : String} {r : Registry Extension} {h : Handle} {argv : List Value}

theorem textOf_append (word : String) (ps qs : List Piece) :
    textOf word (ps ++ qs) = textOf word ps ++ textOf word qs := by
  rw [textOf, List.map_append, String.join_append]
  rfl

@[simp] theorem textOf_singleton (word : String) (p : Piece) : textOf word [p] = p.text word := by
  simp [textOf]

theorem value_eq {p : Phrase} (hp : ∀ i, p ≠ argument i) :
    value word r h argv p =
      (pieces word r h argv p).andThen fun ps => .ok (.text (textOf word ps)) := by
  cases p with
  | argument i => exact absurd rfl (hp i)
  | _ => rfl

theorem pieces_quantity (count : Phrase) (forms : List Int) :
    pieces word r h argv (quantity count forms) =
      (value word r h argv count).andThen fun v =>
        (quantityPiece r h argv v forms).andThen fun piece => .ok [piece] := by
  cases count <;>
    simp only [pieces, value, Outcome.bind_eq, Outcome.pure_eq, Outcome.andThen_assoc,
      Outcome.ok_andThen]

theorem value_rendered (p : Phrase) :
    ((value word r h argv p).andThen fun v => .ofText v.rendered) =
      (pieces word r h argv p).andThen fun ps => .ok (textOf word ps) := by
  cases p with
  | argument i =>
    rw [value, Outcome.ok_andThen, pieces]
    split_ifs with ho
    · rw [argument_outside ho]
      rfl
    · simp only [Outcome.bind_eq, Outcome.pure_eq, Outcome.andThen_assoc, Outcome.ok_andThen,
        textOf_singleton, Piece.text]
      exact (Outcome.andThen_ok _).symm
  | _ =>
    simp only [value, Outcome.bind_eq, Outcome.pure_eq, Outcome.andThen_assoc, Outcome.ok_andThen,
      Program.ofText_text]

theorem evalAll_select (c : Context) (forms : List Int) :
    Program.evalAll c argv (forms.map .select) = .ok (forms.map (Program.argument argv)) := by
  induction forms with
  | nil => rw [List.map_nil, Program.evalAll, List.map_nil]
  | cons i forms ih =>
    simp only [List.map_cons, Program.evalAll, Program.eval, ih, Outcome.bind_eq, Outcome.pure_eq,
      Outcome.ok_andThen]

mutual

theorem eval_program : ∀ p : Phrase, (program p).eval (h.context r) argv = value "None" r h argv p
  | text s => by
    rw [program, Program.eval, value_eq (by simp), pieces, Outcome.ok_andThen, textOf_singleton]
    rfl
  | argument i => by rw [program, Program.eval, value]
  | quantity count forms => by
    rw [program, Program.eval, Program.evalAll, eval_program count, evalAll_select,
      value_eq (p := quantity count forms) (by simp), pieces_quantity]
    simp only [Outcome.bind_eq, Outcome.pure_eq, Outcome.andThen_assoc, Outcome.ok_andThen,
      quant_piece, textOf_singleton]
  | sequence parts => by
    rw [program, Program.eval, join_programs parts, value_eq (by simp), pieces]
    simp only [Outcome.bind_eq, Outcome.pure_eq, Outcome.andThen_assoc, Outcome.ok_andThen]

theorem join_programs : ∀ ps : List Phrase,
    Program.join (h.context r) argv (programs ps) =
      (piecesAll "None" r h argv ps).andThen fun xs => .ok (textOf "None" xs)
  | [] => by
    rw [programs, Program.join, piecesAll, Outcome.ok_andThen]
    rfl
  | p :: ps => by
    rw [programs, Program.join, eval_program p, join_programs ps, piecesAll]
    simp only [Outcome.bind_eq, Outcome.pure_eq]
    rw [← Outcome.andThen_assoc, value_rendered]
    simp only [Outcome.andThen_assoc, Outcome.ok_andThen, textOf_append]

end

end Evaluating

section Completeness

variable {r : Registry Extension} {h : Handle} {argv : List Value}

theorem textOf_congr {ps : List Piece} (hps : .noForm ∉ ps) (w w' : String) :
    textOf w ps = textOf w' ps := by
  refine congrArg String.join (List.map_congr_left fun piece hpiece => ?_)
  cases piece with
  | noForm => exact absurd hpiece hps
  | _ => rfl

theorem length_textOf (w : String) (ps : List Piece) :
    (textOf w ps).length = (textOf "" ps).length + ps.count .noForm * w.length := by
  induction ps with
  | nil => simp [textOf]
  | cons piece ps ih =>
    rw [← List.singleton_append, textOf_append, textOf_append, String.length_append,
      String.length_append, ih, textOf_singleton, textOf_singleton, List.count_append, Nat.add_mul]
    cases piece with
    | noForm =>
      simp [Piece.text]
      omega
    | _ => simp [Piece.text, Nat.add_assoc]

/-- Pieces that are the same whatever the word is, and none of which lacks its form. -/
structure Settled (read : String → Outcome (List Piece)) : Prop where
  agrees : ∀ w, read w = read ""
  complete : ∀ ps, (read "").result = .ok ps → .noForm ∉ ps

theorem Settled.text {read : String → Outcome (List Piece)} (hs : Settled read) {α : Type}
    (next : String → Outcome α) (w : String) :
    ((read w).andThen fun ps => next (textOf w ps)) =
      (read "").andThen fun ps => next (textOf "" ps) := by
  rw [hs.agrees w]
  exact Outcome.andThen_congr fun ps hps => by rw [textOf_congr (hs.complete ps hps) w ""]

theorem Settled.value {p : Phrase} (hs : Settled fun w => pieces w r h argv p) (w : String) :
    value w r h argv p = value "" r h argv p := by
  by_cases hp : ∃ i, p = argument i
  · obtain ⟨i, rfl⟩ := hp
    rw [Phrase.value, Phrase.value]
  · rw [value_eq (not_exists.1 hp), value_eq (not_exists.1 hp)]
    exact hs.text (fun t => .ok (Value.text t)) w

mutual

theorem Complete.settled : ∀ p : Phrase, Complete r h argv p → Settled fun w => pieces w r h argv p
  | text s, _ => ⟨fun w => by rw [pieces, pieces], fun ps hps => by
      rw [pieces] at hps
      obtain rfl := Except.ok.inj hps
      simp⟩
  | argument i, _ => ⟨fun w => by rw [pieces, pieces], fun ps hps => by
      rw [pieces] at hps
      split_ifs at hps
      · obtain rfl := Except.ok.inj hps
        simp
      · obtain ⟨s, -, hs⟩ := Outcome.result_andThen.1 hps
        obtain rfl := Except.ok.inj hs
        simp⟩
  | quantity count forms, hc => by
    rw [Complete] at hc
    obtain ⟨hcount, hform⟩ := hc
    -- The word could only get in through the text of the count.
    refine ⟨fun w => ?_, fun ps hps => ?_⟩
    · rw [pieces_quantity, pieces_quantity, (Complete.settled count hcount).value w]
    · rw [pieces_quantity] at hps
      obtain ⟨v, hv, hrest⟩ := Outcome.result_andThen.1 hps
      obtain ⟨piece, hpiece, hlast⟩ := Outcome.result_andThen.1 hrest
      obtain rfl := Except.ok.inj hlast
      intro hmem
      obtain rfl := List.mem_singleton.1 hmem
      exact hform v hv hpiece
  | sequence parts, hc => by
    rw [Complete] at hc
    have hs := CompleteAll.settled parts hc
    refine ⟨fun w => ?_, fun ps hps => ?_⟩
    · rw [pieces, pieces]
      exact hs.agrees w
    · rw [pieces] at hps
      exact hs.complete ps hps

theorem CompleteAll.settled : ∀ ps : List Phrase, CompleteAll r h argv ps →
    Settled fun w => piecesAll w r h argv ps
  | [], _ => ⟨fun w => by rw [piecesAll, piecesAll], fun ps hps => by
      rw [piecesAll] at hps
      obtain rfl := Except.ok.inj hps
      simp⟩
  | p :: ps, hc => by
    rw [CompleteAll] at hc
    have hfirst := Complete.settled p hc.1
    have hrest := CompleteAll.settled ps hc.2
    refine ⟨fun w => ?_, fun qs hqs => ?_⟩
    · rw [piecesAll, piecesAll, hfirst.agrees w, hrest.agrees w]
    · rw [piecesAll] at hqs
      obtain ⟨xs, hxs, hmore⟩ := Outcome.result_andThen.1 hqs
      obtain ⟨ys, hys, hlast⟩ := Outcome.result_andThen.1 hmore
      obtain rfl := Except.ok.inj hlast
      exact List.not_mem_append (hfirst.complete xs hxs) (hrest.complete ys hys)

end

end Completeness

/-- A phrase compiles to a formatter that writes its pieces. -/
theorem ofPattern_node {r : Registry Extension} {p : Phrase} {pattern : String}
    (hr : r.resolve "quant" = .ok Extension.quant) (hp : Pattern.parse pattern = .ok p.node) :
    ∃ f, Formatter.ofPattern r pattern = .ok f ∧ ∀ h args,
      f.run (Handle.context h r) args = p.writing "None" r h (.handle h :: args) := by
  obtain ⟨items, hitems, -⟩ := Pattern.parseWithin_ok hp
  cases p with
  | sequence parts =>
    have hparse : Pattern.parseWithin Pattern.defaultDepth pattern =
        .ok (.sequence (nodes parts)) := by
      rwa [node] at hp
    obtain ⟨source, hsource⟩ := Formatter.ofPatternWithin_parsed hparse
    refine ⟨⟨pattern, source, .concat (programs parts)⟩, ?_, fun h args => ?_⟩
    · rw [← Formatter.ofPatternWithin_default, hsource, ofNodes_nodes hr]
      rfl
    · rw [Formatter.run_concat, writing, pieces]
      exact join_programs parts
  | text s => simp [node] at hitems
  | argument i => simp [node] at hitems
  | quantity count forms => simp [node] at hitems

/-- Arguments that are not there, in every phrase. A quantity hands on the texts that are written
elsewhere for its forms, except that a form for one that is nothing becomes a word. Where a
reference selects no argument, nothing is written; where none of the forms that would do for a count
is there, the word is written, once for each quantity. So nothing is written for what is not there
wherever each quantity has a form for its count, and otherwise what is written is too long. -/
theorem absent_arguments_written {r : Registry Extension} {p : Phrase} {pattern : String}
    (hr : r.resolve "quant" = .ok Extension.quant) (hp : Pattern.parse pattern = .ok p.node) :
    (∀ c q, Context.quantify c = some q → ∀ count singular plural zero,
      Extension.quant c [count, singular, plural, zero] =
        (given singular).andThen fun s =>
          (given plural).andThen fun o => (given zero).andThen fun z =>
            q [count, .text (s.getD "None"), formValue o, formValue z]) ∧
    (∀ v : Value, Outcome.ofText v.rendered = (given v).andThen fun s => .ok (s.getD "")) ∧
    ∃ f, Formatter.ofPattern r pattern = .ok f ∧ ∀ h args,
      let argv := Value.handle h :: args
      f.run (h.context r) args = p.writing "None" r h argv ∧
      (p.Complete r h argv → f.run (h.context r) args = p.writing "" r h argv) ∧
      ∀ ps, (p.pieces "None" r h argv).result = .ok ps → ∃ t,
        (f.run (h.context r) args).result = .ok t ∧
        t.length = (textOf "" ps).length + 4 * ps.count .noForm ∧
        (t = textOf "" ps ↔ .noForm ∉ ps) := by
  refine ⟨fun c q hq => chooseForm_eq hq, ofText_rendered, ?_⟩
  obtain ⟨f, hf, hrun⟩ := ofPattern_node hr hp
  refine ⟨f, hf, fun h args => ⟨hrun h args, fun hc => ?_, fun ps hps => ?_⟩⟩
  · rw [hrun]
    exact (Complete.settled p hc).text .ok "None"
  · have hlength : (textOf "None" ps).length = (textOf "" ps).length + 4 * ps.count .noForm := by
      have hword : "None".length = 4 := by decide
      rw [length_textOf, hword, Nat.mul_comm]
    refine ⟨textOf "None" ps, ?_, hlength, fun heq => ?_, fun hmem => textOf_congr hmem _ _⟩
    · rw [hrun, writing]
      exact Outcome.result_andThen.2 ⟨ps, hps, rfl⟩
    · have hsame := congrArg String.length heq
      apply List.count_eq_zero.1
      omega

theorem parse_missing :
    Pattern.parse "[_9][*,_1,_2]" =
      .ok (node (sequence [sequence [argument 9], quantity (argument 1) [2]])) := by
  have hlist : Pattern.Derives .directive 100 ['[', '_', '9', ']'] [.sequence [.reference 9]] :=
    .list (.reference (.plain (.digit rfl)) (by decide)) .none (by simp)
  have hcount : Pattern.Derives (.run .argument false) 99 ['_', '1'] [.reference 1] :=
    .chunk (v := []) (.reference (.plain (.digit rfl)) (by decide)) .done
  have hform : Pattern.Derives (.run .argument false) 99 ['_', '2'] [.reference 2] :=
    .chunk (v := []) (.reference (.plain (.digit rfl)) (by decide)) .done
  have hcall : Pattern.Derives .directive 100 ['[', '*', ',', '_', '1', ',', '_', '2', ']']
      [.call "quant" [.reference 1, .reference 2]] :=
    .call .choice (.argument hcount (.argument hform .none))
  have hrun : Pattern.Derives (.run .outside false) 100 "[_9][*,_1,_2]".toList
      [.sequence [.reference 9], .call "quant" [.reference 1, .reference 2]] :=
    .nested hlist (.nested hcall .done)
  simp only [node, nodes, List.map_cons, List.map_nil]
  exact Pattern.parseWithin_of_derives hrun

/-- A form for one is missing, and then it is there. -/
theorem absent_arguments_written_then_there :
    let p : Phrase := sequence [sequence [argument 9], quantity (argument 1) [2]]
    let h : Handle := ⟨0, "en", "*", .marker⟩
    let r := Registry.builtins .catalogue
    r.resolve "quant" = .ok Extension.quant ∧
    Pattern.parse "[_9][*,_1,_2]" = .ok p.node ∧
    p.Complete r h [.handle h, .int 1, .text "b"] ∧
    ∃ f, Formatter.ofPattern r "[_9][*,_1,_2]" = .ok f ∧
      f.run (h.context r) [.int 1] = .ok "None" ∧
      p.writing "" r h [.handle h, .int 1] = .ok "" ∧
      f.run (h.context r) [.int 1, .text "b"] = .ok "b" := by
  intro p h r
  have hr : r.resolve "quant" = .ok Extension.quant := rfl
  have hmissing : p.pieces "None" r h [.handle h, .int 1] = .ok [.noArgument, .noForm] := rfl
  have hdue : p.pieces "" r h [.handle h, .int 1] = .ok [.noArgument, .noForm] := rfl
  have hcount : Program.argument [.handle h, .int 1, .text "b"] 1 = .int 1 := rfl
  have hform : formText r h "b" (.int 1) = .ok "b" := by
    have hsimple : Simple "b" := ⟨by decide, by decide⟩
    have hwritten : writtenForm h "1" "b" = "b" := by decide
    rw [formText, writeForm_simple (by decide) rfl (t := "1") (by decide) hsimple, hwritten]
    rfl
  have hpiece : quantityPiece r h [.handle h, .int 1, .text "b"] (.int 1) [2] =
      .ok (.written "b") := by
    have hchosen : quantityPiece r h [.handle h, .int 1, .text "b"] (.int 1) [2] =
      (formText r h "b" (.int 1)).andThen fun s => .ok (.written s) := rfl
    rw [hchosen, hform, Outcome.ok_andThen]
  have hthere : p.pieces "" r h [.handle h, .int 1, .text "b"] =
      .ok [.noArgument, .written "b"] := by
    have houtside : Outside [.handle h, .int 1, .text "b"] 9 := by decide
    simp only [p, pieces, piecesAll, if_pos houtside, hcount, hpiece, Outcome.bind_eq,
      Outcome.pure_eq, Outcome.ok_andThen]
    rfl
  have hcomplete : p.Complete r h [.handle h, .int 1, .text "b"] := by
    refine ⟨⟨trivial, trivial⟩, ⟨trivial, ?_⟩, trivial⟩
    rintro v hv
    obtain rfl := Except.ok.inj hv
    intro hnone
    rw [hcount, hpiece] at hnone
    cases hnone
  obtain ⟨-, -, f, hf, hrun⟩ := absent_arguments_written hr parse_missing
  obtain ⟨hword, -, -⟩ := hrun h [.int 1]
  obtain ⟨-, hwhole, -⟩ := hrun h [.int 1, .text "b"]
  refine ⟨hr, parse_missing, hcomplete, f, hf, ?_, ?_, ?_⟩
  · rw [hword, writing, hmissing]
    rfl
  · rw [writing, hdue]
    rfl
  · rw [hwhole hcomplete, writing, hthere]
    rfl

end Phrase

end Phrasebook
