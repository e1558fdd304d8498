import Phrasebook.Locale.Catalogue
import Phrasebook.Handle
import Phrasebook.Proofs.Formatter.Plain
import Phrasebook.Proofs.Formatter.Source

/-!
# Arguments that are not referred to

Two runs of one formatter under one context are the same, call by call, if their arguments are
equally many and agree where a reference selects one. A quantity reads its form as a pattern of its
own, whose only argument is the count: beyond the choice of the form, the count matters only where
that pattern refers to it.
-/

namespace Phrasebook

/-- The position that an index selects among `n` arguments, a negative one counted from the end. -/
def Pattern.Node.position? (n : Nat) (i : Int) : Option Nat :=
  if 0 ≤ i then if i < n then some i.toNat else none
  else if 0 ≤ n + i then some (n + i).toNat else none

open Pattern.Node (position?)

/-- As many arguments, and the same ones where one of the indices selects one. -/
structure AgreeAt (indices : List Int) (argv argv' : List Value) : Prop where
  length : argv.length = argv'.length
  selected : ∀ i ∈ indices, ∀ k, position? argv.length i = some k → argv[k]? = argv'[k]?

theorem Program.argument_eq (argv : List Value) (i : Int) :
    argument argv i = ((position? argv.length i).bind (argv[·]?)).getD .none := by
  rw [argument, position?]
  by_cases hi : 0 ≤ i
  · by_cases hlt : i < argv.length
    · simp [hi, hlt]
    · simp [hi, hlt]
  · by_cases hpos : 0 ≤ argv.length + i <;> simp [hi, hpos]

theorem AgreeAt.argument {indices : List Int} {argv argv' : List Value}
    (h : AgreeAt indices argv argv') {i : Int} (hi : i ∈ indices) :
    Program.argument argv i = Program.argument argv' i := by
  rw [Program.argument_eq, Program.argument_eq, ← h.length]
  cases hk : position? argv.length i with
  | none => rfl
  | some k => simp only [Option.bind_some, h.selected i hi k hk]

namespace Program

variable {c : Context} {argv argv' : List Value} {r : Registry Extension}

mutual

def selects : Program → List Int
  | text _ => []
  | select i => [i]
  | call _ args => selectsAll args
  | concat parts => selectsAll parts

def selectsAll : List Program → List Int
  | [] => []
  | p :: ps => selects p ++ selectsAll ps

end

mutual

/-- A program reads nothing but the arguments that it selects. -/
theorem trace_congr (c : Context) : ∀ p : Program,
    (∀ i ∈ p.selects, argument argv i = argument argv' i) → p.trace c argv = p.trace c argv'
  | .text s, _ => by rw [trace, trace]
  | .select i, h => by rw [trace, trace, h i (by simp [selects])]
  | .call f args, h => by
    rw [selects] at h
    rw [trace, trace, traceAll_congr c args h]
  | .concat parts, h => by
    rw [selects] at h
    rw [trace, trace, traceJoin_congr c parts h]

theorem traceAll_congr (c : Context) : ∀ ps : List Program,
    (∀ i ∈ selectsAll ps, argument argv i = argument argv' i) →
      traceAll c argv ps = traceAll c argv' ps
  | [], _ => by rw [traceAll, traceAll]
  | p :: ps, h => by
    rw [selectsAll] at h
    obtain ⟨hp, hps⟩ := List.forall_mem_append.1 h
    rw [traceAll, traceAll, trace_congr c p hp, traceAll_congr c ps hps]

theorem traceJoin_congr (c : Context) : ∀ ps : List Program,
    (∀ i ∈ selectsAll ps, argument argv i = argument argv' i) →
      traceJoin c argv ps = traceJoin c argv' ps
  | [], _ => by rw [traceJoin, traceJoin]
  | p :: ps, h => by
    rw [selectsAll] at h
    obtain ⟨hp, hps⟩ := List.forall_mem_append.1 h
    rw [traceJoin, traceJoin, trace_congr c p hp, traceJoin_congr c ps hps]

end

mutual

theorem selects_ofNode : ∀ (node : Pattern.Node) (p : Program), ofNode r node = .ok p →
    p.selects = node.references
  | .literal s, p, h => by
    rw [ofNode] at h
    cases h
    rw [selects, Pattern.Node.references]
  | .reference i, p, h => by
    rw [ofNode] at h
    cases h
    rw [selects, Pattern.Node.references]
  | .call name args, p, h => by
    obtain ⟨f, ps, -, hps, rfl⟩ := of_call h
    rw [selects, Pattern.Node.references, selectsAll_ofNodes args ps hps]
  | .sequence items, p, h => by
    obtain ⟨ps, hps, rfl⟩ := of_sequence h
    rw [selects, Pattern.Node.references, selectsAll_ofNodes items ps hps]

theorem selectsAll_ofNodes : ∀ (nodes : List Pattern.Node) (ps : List Program),
    ofNodes r nodes = .ok ps → selectsAll ps = Pattern.Node.referencesAll nodes
  | [], ps, h => by
    rw [ofNodes] at h
    cases h
    rw [selectsAll, Pattern.Node.referencesAll]
  | node :: nodes, ps, h => by
    obtain ⟨p, qs, hp, hqs, rfl⟩ := of_cons h
    rw [selectsAll, Pattern.Node.referencesAll, selects_ofNode node p hp,
      selectsAll_ofNodes nodes qs hqs]

end

mutual

theorem selects_placed (contexts : Nat → Context) : ∀ (p : Program) (room : Nat),
    (Quantity.placed contexts room p).selects = p.selects
  | .text s, room => by rw [Quantity.placed]
  | .select i, room => by rw [Quantity.placed]
  | .call f args, room => by
    rw [Quantity.placed, selects, selects, selectsAll_placed contexts args]
  | .concat parts, room => by
    rw [Quantity.placed, selects, selects, selectsAll_placed contexts parts]

theorem selectsAll_placed (contexts : Nat → Context) : ∀ (ps : List Program) (room : Nat),
    selectsAll (Quantity.placedAll contexts room ps) = selectsAll ps
  | [], room => by rw [Quantity.placedAll]
  | p :: ps, room => by
    rw [Quantity.placedAll, selectsAll, selectsAll, selects_placed contexts p,
      selectsAll_placed contexts ps]

end

end Program

namespace Formatter

variable {r : Registry Extension} {pattern : String} {node : Pattern.Node} {f : Formatter}
  {c : Context} {args args' : List Value}

theorem trace_congr (h : AgreeAt f.program.selects (c.self :: args) (c.self :: args')) :
    f.trace c args = f.trace c args' := by
  rw [trace, trace, Program.trace_congr c f.program fun i hi => h.argument hi]

theorem run_congr (h : AgreeAt f.program.selects (c.self :: args) (c.self :: args')) :
    f.run c args = f.run c args' := by
  rw [← f.outcome_trace, ← f.outcome_trace, trace_congr h]

theorem node_of_ofPattern (h : ofPattern r pattern = .ok f) :
    ∃ node, Pattern.parse pattern = .ok node ∧ f.program.selects = node.references := by
  unfold ofPattern at h
  cases hp : Pattern.parse pattern with
  | error fault =>
    rw [hp] at h
    cases h
  | ok node =>
    rw [hp] at h
    exact ⟨node, rfl, Program.selects_ofNode node f.program (of_node h).1⟩

end Formatter

namespace Quantity

variable {r : Registry Extension} {contexts : Nat → Context} {room : Nat} {form : String}

def Countless (form : String) : Prop :=
  ∀ node, Pattern.parse (template form) = .ok node → ∀ i ∈ node.references, position? 2 i ≠ some 1

theorem Countless.agree {f : Formatter} (h : Countless form)
    (hf : Formatter.ofPattern r (template form) = .ok f) (self count count' : Value) :
    AgreeAt f.program.selects [self, count] [self, count'] := by
  obtain ⟨node, hparse, hselects⟩ := Formatter.node_of_ofPattern hf
  refine ⟨rfl, fun i hi k hk => ?_⟩
  rw [hselects] at hi
  match k with
  | 0 => rfl
  | 1 => exact absurd hk (h node hparse i hi)
  | k + 2 => rfl

theorem writeForm_countless (h : Countless form) (count count' : Value) :
    writeForm r contexts room form count = writeForm r contexts room form count' := by
  rw [writeForm, writeForm]
  split
  · rfl
  · cases hf : Formatter.ofPattern r (template form) with
    | error fault => rfl
    | ok f =>
      have hagree := h.agree hf (contexts room).self count count'
      rw [← Program.selects_placed contexts f.program (room - 2)] at hagree
      simp only [Outcome.ofExcept, Outcome.bind_eq, Outcome.ok_andThen]
      rw [Formatter.run_congr hagree]

end Quantity

open Quantity in
/-- Whatever a formatter calls, a quantity of the handle included, it makes the same calls with the
same values, tells the same and comes to the same text or fault, if the arguments agree where a
reference selects one. Counts for which the same form is chosen come to the same if that form does
not refer to its count. -/
theorem references_suffice (r : Registry Extension) :
    (∀ pattern node f, Formatter.ofNode r pattern node = .ok f → ∀ (c : Context) args args',
      AgreeAt node.references (c.self :: args) (c.self :: args') →
        f.trace c args = f.trace c args' ∧ f.run c args = f.run c args') ∧
    ∀ (h : Handle) count count' singular plural zero form,
      choose count singular plural zero = .ok (.text form) →
      choose count' singular plural zero = .ok (.text form) → Countless form →
      h.quantify r [count, singular, plural, zero] =
        h.quantify r [count', singular, plural, zero] := by
  refine ⟨fun pattern node f hf c args args' hagree => ?_,
    fun h count count' singular plural zero form hc hc' hform => ?_⟩
  · rw [← Program.selects_ofNode node f.program (Formatter.of_node hf).1] at hagree
    exact ⟨Formatter.trace_congr hagree, Formatter.run_congr hagree⟩
  · simp only [Handle.quantify, writeAll, write, hc, hc', Outcome.ofExcept, Outcome.bind_eq,
      Outcome.ok_andThen]
    exact writeForm_countless hform count count'

/-- Only the last argument is referred to; a form without references is the same for two spellings
of one. -/
theorem references_suffice_last :
    let h : Handle := ⟨0, "en", "*", .marker⟩
    let r := Registry.builtins .catalogue
    let node : Pattern.Node := .sequence [.call "quant" [.reference (-1), .literal "_1 of them"]]
    let args : List Value := [.text "a", .int 3]
    let args' : List Value := [.text "b", .int 3]
    (∃ f, Formatter.ofNode r "" node = .ok f ∧
      AgreeAt node.references (.handle h :: args) (.handle h :: args') ∧
      f.run (h.context r) args = f.run (h.context r) args') ∧
    Quantity.Countless "one" ∧ h.quantify r [.int 1, .text "one", .none, .none] =
      h.quantify r [.text "1.0", .text "one", .none, .none] := by
  intro h r node args args'
  obtain ⟨f, hf⟩ : ∃ f, Formatter.ofNode r "" node = .ok f := ⟨_, rfl⟩
  obtain ⟨hformatter, hquantify⟩ := references_suffice r
  have hagree : AgreeAt node.references (.handle h :: args) (.handle h :: args') := by
    refine ⟨rfl, fun i hi k hk => ?_⟩
    obtain rfl : i = -1 := List.mem_singleton.1 hi
    obtain rfl : 2 = k := Option.some.inj hk
    rfl
  have hcountless : Quantity.Countless "one" := by
    intro node hparse i hi
    have hplain : Pattern.Directiveless (Quantity.template "one") := by
      intro u v huv
      have hmem : '[' ∈ (Quantity.template "one").toList := by rw [huv]; simp
      exact absurd hmem (by decide)
    have hread := hplain.parse Pattern.defaultDepth
    obtain rfl := Except.ok.inj (hparse.symm.trans hread)
    exact absurd hi List.not_mem_nil
  exact ⟨⟨f, hf, hagree, (hformatter _ node f hf (h.context r) args args' hagree).2⟩,
    hcountless, hquantify h _ _ _ _ _ "one" rfl rfl hcountless⟩

end Phrasebook
