import Phrasebook.Locale.Catalogue
import Phrasebook.Formatter
import Phrasebook.Proofs.Pattern.Joining
import Phrasebook.Proofs.Pattern.Printable

/-!
# Phrases side by side

Compiling and writing two patterns, one behind the other. Looking names up and writing texts go
through the items in order, so both are done for the first pattern and then for the second; where
two texts have become one, it is written as both were.
-/

namespace Phrasebook

variable {r : Registry Extension} {limit : Int} {pattern : String} {node : Pattern.Node}
  {ns ms ts nodes : List Pattern.Node}

section Expressions

theorem Value.intText_of_digits {i : Int}
    (h : (Text.digits i.natAbs).length ≤ Pattern.maxReferenceDigits) :
    ∃ t, Value.intText i = some t := by
  have hlen : ¬ maxDigits < (Nat.toDigits 10 i.natAbs).length := Nat.not_lt.2 h
  exact ⟨_, if_neg hlen⟩

theorem Pattern.Node.expressions_of_all (h : ∀ node ∈ nodes, ∃ e, expression node = some e) :
    ∃ es, expressions nodes = some es := by
  induction nodes with
  | nil => exact ⟨[], rfl⟩
  | cons node nodes ih =>
    obtain ⟨⟨e, he⟩, hrest⟩ := List.forall_mem_cons.1 h
    obtain ⟨es, hes⟩ := ih hrest
    exact ⟨e :: es, by rw [expressions, he, hes]; rfl⟩

theorem Pattern.Node.expression_sequence {es : List String} (h : expressions nodes = some es) :
    ∃ e, expression (.sequence nodes) = some e := by
  rw [expression, h]
  match es with
  | [] => exact ⟨_, rfl⟩
  | [_] => exact ⟨_, rfl⟩
  | _ :: _ :: _ => exact ⟨_, rfl⟩

theorem Pattern.Argument.expression (h : Pattern.Argument node) :
    ∃ e, node.expression = some e := by
  induction h with
  | text => exact ⟨_, by rw [Node.expression]⟩
  | @reference i hi =>
    rw [Node.expression, Node.indexExpression]
    by_cases hpos : 0 ≤ i
    · obtain ⟨t, ht⟩ := Value.intText_of_digits hi
      exact ⟨_, by rw [if_pos hpos, ht]; rfl⟩
    · rw [← Int.natAbs_neg] at hi
      obtain ⟨t, ht⟩ := Value.intText_of_digits hi
      exact ⟨_, by rw [if_neg hpos, ht]; rfl⟩
  | call _ _ ih =>
    obtain ⟨es, hes⟩ := Node.expressions_of_all ih
    exact ⟨_, by rw [Node.expression, hes]; rfl⟩
  | list _ _ ih =>
    obtain ⟨es, hes⟩ := Node.expressions_of_all ih
    exact Node.expression_sequence hes

theorem Pattern.Printable.expression (h : Pattern.Printable nodes) :
    ∃ e, Node.expression (.sequence nodes) = some e := by
  have hall : ∀ node ∈ nodes, ∃ e, node.expression = some e := by
    intro node hnode
    cases h node hnode with
    | text => exact ⟨_, by rw [Node.expression]⟩
    | directive harg _ => exact harg.expression
  obtain ⟨es, hes⟩ := Node.expressions_of_all hall
  exact Node.expression_sequence hes

theorem Pattern.printable_of_parse (h : Pattern.parseWithin limit pattern = .ok (.sequence nodes)) :
    Pattern.Printable nodes := by
  obtain ⟨nodes', ⟨⟩, hd⟩ := parseWithin_ok h
  exact fun node hnode => (hd.shape node hnode).1

end Expressions

namespace Program

theorem ofNodes_append (r : Registry Extension) (ns ms : List Pattern.Node) :
    ofNodes r (ns ++ ms) = do
      let ps ← ofNodes r ns
      let qs ← ofNodes r ms
      return ps ++ qs := by
  induction ns with
  | nil => cases h : ofNodes r ms <;> simp [ofNodes, h] <;> rfl
  | cons n ns ih =>
    rw [List.cons_append, ofNodes, ofNodes]
    cases ofNode r n with
    | error f => rfl
    | ok p =>
      rw [ih]
      cases ofNodes r ns with
      | error f => rfl
      | ok ps => cases ofNodes r ms <;> rfl

variable (c : Context) (argv : List Value)

@[simp] theorem ofText_text (s : String) : Outcome.ofText (Value.text s).rendered = .ok s := rfl

theorem join_cons (p : Program) (ps : List Program) :
    join c argv (p :: ps) =
      (join c argv [p]).andThen fun s => (join c argv ps).andThen fun t => .ok (s ++ t) := by
  simp only [join, Outcome.bind_eq, Outcome.pure_eq, Outcome.andThen_assoc, Outcome.ok_andThen,
    String.append_empty]

theorem join_append (ps qs : List Program) :
    join c argv (ps ++ qs) =
      (join c argv ps).andThen fun s => (join c argv qs).andThen fun t => .ok (s ++ t) := by
  induction ps with
  | nil => simp [join]
  | cons p ps ih =>
    rw [List.cons_append, join_cons, ih, join_cons c argv p ps]
    simp only [Outcome.andThen_assoc, Outcome.ok_andThen, String.append_assoc]

theorem join_text_append (a b : String) (ps : List Program) :
    join c argv (text (a ++ b) :: ps) = join c argv (text a :: text b :: ps) := by
  simp only [join, eval, Outcome.bind_eq, Outcome.pure_eq, Outcome.ok_andThen, ofText_text,
    Outcome.andThen_assoc, String.append_assoc]

end Program

/-- What two compilations come to one after the other: the first fault, or programs that write what
both write. -/
def Program.Follows (x y z : Except Fault (List Program)) : Prop :=
  match x, y with
  | .error f, _ => z = .error f
  | .ok _, .error f => z = .error f
  | .ok ps, .ok qs =>
    ∃ us, z = .ok us ∧ ∀ c argv, Program.join c argv us =
      (Program.join c argv ps).andThen fun s =>
        (Program.join c argv qs).andThen fun t => .ok (s ++ t)

theorem Pattern.Joined.compile (h : Pattern.Joined ns ms ts) (r : Registry Extension) :
    Program.Follows (Program.ofNodes r ns) (Program.ofNodes r ms) (Program.ofNodes r ts) := by
  cases h with
  | apart =>
    rw [Program.ofNodes_append]
    cases Program.ofNodes r ns with
    | error f => rfl
    | ok ps =>
      cases Program.ofNodes r ms with
      | error f => rfl
      | ok qs => exact ⟨ps ++ qs, rfl, fun c argv => Program.join_append c argv ps qs⟩
  | @merged ns ms a b =>
    rw [Program.ofNodes_append, Program.ofNodes_append]
    simp only [Program.ofNodes, Program.ofNode]
    cases Program.ofNodes r ns with
    | error f => rfl
    | ok ps =>
      cases Program.ofNodes r ms with
      | error f => rfl
      | ok qs =>
        refine ⟨ps ++ .text (a ++ b) :: qs, rfl, fun c argv => ?_⟩
        rw [Program.join_append, Program.join_text_append, ← Program.join_append,
          ← Program.join_append]
        simp

namespace Formatter

def ofPatternWithin (limit : Int) (r : Registry Extension) (pattern : String) :
    Except Fault Formatter :=
  match Pattern.parseWithin limit pattern with
  | .ok node => ofNode r pattern node
  | .error f => .error (.pattern f)

theorem ofPatternWithin_default : ofPatternWithin Pattern.defaultDepth = ofPattern := rfl

theorem ofPatternWithin_parsed
    (h : Pattern.parseWithin limit pattern = .ok (.sequence nodes)) :
    ∃ source, ∀ r, ofPatternWithin limit r pattern =
      (Program.ofNodes r nodes).map fun ps => ⟨pattern, source, .concat ps⟩ := by
  obtain ⟨source, hs⟩ := (Pattern.printable_of_parse h).expression
  refine ⟨source, fun r => ?_⟩
  unfold ofPatternWithin ofNode
  rw [h]
  simp only [hs, Program.ofNode]
  cases Program.ofNodes r nodes <;> rfl

theorem run_concat (pattern source : String) (ps : List Program) (c : Context)
    (args : List Value) :
    run ⟨pattern, source, .concat ps⟩ c args = Program.join c (c.self :: args) ps := by
  simp only [run, Program.eval, Outcome.bind_eq, Outcome.pure_eq, Outcome.andThen_assoc,
    Outcome.ok_andThen, Program.ofText_text]
  exact Outcome.andThen_ok _

/-- Two patterns that can be read can be read as one, unless the last tilde of the first would
escape the start of the second. The pattern of both compiles if both do, and otherwise fails as the
first of them to fail does; it writes what the first writes and then what the second writes, or
fails as the first of them to fail does. -/
theorem writing_composes {limit : Int} {p q : String}
    (hp : ∃ tree, Pattern.parseWithin limit p = .ok tree)
    (hq : ∃ tree, Pattern.parseWithin limit q = .ok tree)
    (hseam : ¬ (Pattern.EndsOdd p.toList ∧
      ∃ c ∈ q.toList.head?, c = '[' ∨ c = ']' ∨ c = ',' ∨ c = '~')) :
    (∃ tree, Pattern.parseWithin limit (p ++ q) = .ok tree) ∧
    ∀ r : Registry Extension,
      match ofPatternWithin limit r p, ofPatternWithin limit r q with
      | .error fault, _ => ofPatternWithin limit r (p ++ q) = .error fault
      | .ok _, .error fault => ofPatternWithin limit r (p ++ q) = .error fault
      | .ok f, .ok g => ∃ h, ofPatternWithin limit r (p ++ q) = .ok h ∧
        ∀ c args, h.run c args =
          (f.run c args).andThen fun s => (g.run c args).andThen fun t => .ok (s ++ t) := by
  have hfit : Pattern.Fits p.toList q.toList := by
    rintro ⟨hodd, c, hc, he⟩
    refine hseam ⟨hodd, c, hc, ?_⟩
    simpa [Pattern.isEscapable, or_assoc] using he
  obtain ⟨tp, hp⟩ := hp
  obtain ⟨tq, hq⟩ := hq
  obtain ⟨ns, ms, ts, rfl, rfl, ht, hj⟩ := Pattern.parseWithin_append hp hq hfit
  refine ⟨⟨_, ht⟩, fun r => ?_⟩
  obtain ⟨sp, hsp⟩ := ofPatternWithin_parsed hp
  obtain ⟨sq, hsq⟩ := ofPatternWithin_parsed hq
  obtain ⟨st, hst⟩ := ofPatternWithin_parsed ht
  rw [hsp, hsq, hst]
  have hjoin := hj.compile r
  cases hns : Program.ofNodes r ns with
  | error f =>
    rw [hns] at hjoin
    exact congrArg _ hjoin
  | ok ps =>
    cases hms : Program.ofNodes r ms with
    | error f =>
      rw [hns, hms] at hjoin
      exact congrArg _ hjoin
    | ok qs =>
      rw [hns, hms] at hjoin
      obtain ⟨us, hus, hrun⟩ := hjoin
      refine ⟨_, congrArg _ hus, fun c args => ?_⟩
      rw [run_concat, run_concat, run_concat, hrun]

theorem parse_tilde : Pattern.parseWithin 100 "a~" = .ok (.sequence [.literal "a~"]) := by
  have htext : Pattern.Spells Pattern.opensDirective true ['a', '~'] ['a', '~'] :=
    .plain (by decide) rfl .last
  have hrun : Pattern.Derives (.run .outside false) 100 ['a', '~'] [.literal "a~"] :=
    .chunk (v := []) (.plain (by decide) htext) .done
  exact Pattern.parseWithin_of_derives hrun

theorem parse_referring :
    Pattern.parseWithin 100 "b[_1]" =
      .ok (.sequence [.literal "b", .sequence [.reference 1]]) := by
  have htext : Pattern.Spells Pattern.opensDirective false ['b'] ['b'] :=
    .plain (by decide) rfl .nil
  have htoken : Pattern.Token ['_', '1'] (.list [.reference 1]) :=
    .reference (.plain (.digit rfl)) (by decide)
  have hdirective : Pattern.Derives .directive 100 ['[', '_', '1', ']']
      [.sequence [.reference 1]] := .list htoken .none (by simp)
  have hrun : Pattern.Derives (.run .outside false) 100 "b[_1]".toList
      [.literal "b", .sequence [.reference 1]] :=
    .chunk (w := ['b']) (.plain (by decide) htext) (.nested hdirective .done)
  exact Pattern.parseWithin_of_derives hrun

theorem writing_composes_tilde :
    (∃ tree, Pattern.parseWithin 100 "a~" = .ok tree) ∧
    (∃ tree, Pattern.parseWithin 100 "b[_1]" = .ok tree) ∧
    (¬ (Pattern.EndsOdd "a~".toList ∧
      ∃ c ∈ "b[_1]".toList.head?, c = '[' ∨ c = ']' ∨ c = ',' ∨ c = '~')) ∧
    ∃ h, ofPatternWithin 100 (.builtins .catalogue) ("a~" ++ "b[_1]") = .ok h ∧
      h.run (.ofValue .none) [.text "c"] = .ok "a~bc" := by
  have hseam : ¬ (Pattern.EndsOdd "a~".toList ∧
      ∃ c ∈ "b[_1]".toList.head?, c = '[' ∨ c = ']' ∨ c = ',' ∨ c = '~') := by
    rintro ⟨-, c, hc, h⟩
    obtain rfl : 'b' = c := by simpa using hc
    revert h
    decide
  have hboth :=
    (writing_composes ⟨_, parse_tilde⟩ ⟨_, parse_referring⟩ hseam).2 (.builtins .catalogue)
  have hf : ofPatternWithin 100 (.builtins .catalogue) "a~" =
      .ok ⟨"a~", "\"a~\"", .concat [.text "a~"]⟩ := by
    unfold ofPatternWithin
    rw [parse_tilde]
    rfl
  have hg : ofPatternWithin 100 (.builtins .catalogue) "b[_1]" =
      .ok ⟨"b[_1]", "concat(\"b\", args[1])", .concat [.text "b", .concat [.select 1]]⟩ := by
    unfold ofPatternWithin
    rw [parse_referring]
    rfl
  rw [hf, hg] at hboth
  obtain ⟨h, hh, hrun⟩ := hboth
  refine ⟨⟨_, parse_tilde⟩, ⟨_, parse_referring⟩, hseam, h, hh, ?_⟩
  rw [hrun]
  rfl

end Formatter

end Phrasebook
