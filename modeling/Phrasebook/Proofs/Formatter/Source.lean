import Phrasebook.Proofs.Formatter.Expression
import Phrasebook.Proofs.Formatter.Trace

/-!
# Evaluating expressions

The expression of a formatter, evaluated over an argument list and a mapping of extensions, does
what the formatter does: it makes the same calls and comes to the same text. Two things come between
them. An expression leaves out sequences of one item, which turn a value into its text; as long as
none is an argument, nothing is lost. And an expression evaluates all parts of a message before it
writes the first of them.
-/

namespace Phrasebook

namespace Trace

variable {α β : Type} {x y z : Trace α}

/-- The same is done, unless a text is asked of an integer that is too long to have one: there the
second stops, and the first may go on before it fails as well. -/
def Agrees (x y : Trace α) : Prop :=
  x = y ∨ (y.result = .error .longNumber ∧ y.calls <+: x.calls ∧ ∃ f, x.result = .error f)

theorem Agrees.refl (x : Trace α) : Agrees x x := .inl rfl

theorem Agrees.trans (h : Agrees x y) (h' : Agrees y z) : Agrees x z := by
  rcases h with rfl | ⟨hy, hcalls, hx⟩
  · exact h'
  · rcases h' with rfl | ⟨hz, hcalls', -⟩
    · exact .inr ⟨hy, hcalls, hx⟩
    · exact .inr ⟨hz, hcalls'.trans hcalls, hx⟩

theorem andThen_error {f : Fault} (h : x.result = .error f) (k : α → Trace β) :
    (x.andThen k).result = .error f ∧ (x.andThen k).calls = x.calls := by
  obtain ⟨calls, notices, _ | a⟩ := x
  · cases h
    exact ⟨rfl, rfl⟩
  · cases h

theorem Agrees.andThen {k k' : α → Trace β} (h : Agrees x y) (hk : ∀ a, Agrees (k a) (k' a)) :
    Agrees (x.andThen k) (y.andThen k') := by
  rcases h with rfl | ⟨hy, hcalls, f, hx⟩
  · obtain ⟨calls, notices, _ | a⟩ := x
    · exact .refl _
    · -- what follows may stop early behind the same calls
      rcases hk a with heq | ⟨hresult, hcalls, hf⟩
      · exact .inl (by simp only [Trace.andThen, heq])
      · exact .inr ⟨hresult, (List.prefix_append_right_inj calls).2 hcalls, hf⟩
  · obtain ⟨hresult, hsame⟩ := andThen_error hy k'
    obtain ⟨hresult', hsame'⟩ := andThen_error hx k
    exact .inr ⟨hresult, by rwa [hsame, hsame'], f, hresult'⟩

theorem Agrees.text {x y : Trace Value} (h : Agrees x y) : Agrees x.text y.text :=
  h.andThen fun _ => .refl _

def joined : List Value → Trace String
  | [] => .ok ""
  | v :: vs => (textOf v).andThen fun s => (joined vs).andThen fun t => .ok (s ++ t)

/-- A text may as well be made before others are evaluated. -/
theorem agrees_joined (v : Value) (x : Trace (List Value)) :
    Agrees (x.andThen fun vs => joined (v :: vs))
      ((textOf v).andThen fun s => (x.andThen joined).andThen fun t => .ok (s ++ t)) := by
  cases hv : v.rendered with
  | some s =>
    have htext : textOf v = .ok s := by rw [textOf, hv]; rfl
    refine .inl ?_
    simp only [joined, htext, ok_andThen, andThen_assoc]
  | none =>
    simp only [joined, textOf_none hv, fail_andThen]
    refine .inr ⟨rfl, List.nil_prefix, ?_⟩
    obtain ⟨calls, notices, f | vs⟩ := x
    · exact ⟨f, rfl⟩
    · exact ⟨_, rfl⟩

end Trace

namespace Expression

variable (functions : Registry Extension) (c : Context) (argv : List Value)

def outOfRange : Fault := .raised "index" "index out of range"

def notThere (name : String) : Fault := .raised "key" (Text.quoted name)

def item (argv : List Value) (index : Int) : Trace Value :=
  let position := if 0 ≤ index then index else argv.length + index
  if 0 ≤ position then
    match argv[position.toNat]? with
    | some v => .ok v
    | none => .fail outOfRange
  else .fail outOfRange

mutual

/-- Evaluates an expression: a function is looked up before its arguments are evaluated. -/
def trace : Expression → Trace Value
  | literal s => .ok (.text s)
  | argument index => item argv index
  | fromEnd distance => item argv (argv.length - distance)
  | call name args =>
    match functions.get? name with
    | some f => (traceAll args).andThen (.call c f)
    | none => .fail (notThere name)
  | concat items => ((traceAll items).andThen Trace.joined).andThen fun s => .ok (.text s)

def traceAll : List Expression → Trace (List Value)
  | [] => .ok []
  | e :: es => (trace e).andThen fun v => (traceAll es).andThen fun vs => .ok (v :: vs)

end

def run (e : Expression) (args : List Value) : Trace String :=
  (e.trace functions c (c.self :: args)).text

end Expression

namespace Pattern.Node

mutual

def references : Node → List Int
  | literal _ => []
  | reference i => [i]
  | call _ args => referencesAll args
  | sequence items => referencesAll items

def referencesAll : List Node → List Int
  | [] => []
  | node :: nodes => references node ++ referencesAll nodes

end

def InRange (argv : List Value) (i : Int) : Prop := -argv.length ≤ i ∧ i < argv.length

/-- The expression of a tree is a text whatever it is evaluated with. -/
def isTextual : Node → Bool
  | literal _ => true
  | reference _ => false
  | call _ _ => false
  | sequence [single] => isTextual single
  | sequence _ => true

/-- As an argument, a tree has the value of its expression: it is not a sequence of one item that
only turns the value of a reference or a call into a text. -/
def fits (node : Node) : Bool := !node.isSequence || node.isTextual

mutual

def settled : Node → Bool
  | literal _ => true
  | reference _ => true
  | call _ args => settledArguments args
  | sequence items => settledAll items

def settledAll : List Node → Bool
  | [] => true
  | node :: nodes => settled node && settledAll nodes

def settledArguments : List Node → Bool
  | [] => true
  | node :: nodes => settled node && fits node && settledArguments nodes

end

/-- What is left of a tree without sequences of one item around it. -/
def core : Node → Node
  | sequence [single] => core single
  | node => node

mutual

/-- A tree without such sequences around the arguments of calls. -/
def bare : Node → Node
  | literal s => literal s
  | reference i => reference i
  | call name args => call name (bareArguments args)
  | sequence items => sequence (bareAll items)

def bareAll : List Node → List Node
  | [] => []
  | node :: nodes => bare node :: bareAll nodes

def bareArguments : List Node → List Node
  | [] => []
  | node :: nodes => core (bare node) :: bareArguments nodes

end

end Pattern.Node

section Compiling

variable {r : Registry Extension} {node : Pattern.Node} {nodes args items : List Pattern.Node}
  {name : String} {p : Program} {ps : List Program}

theorem ok_of_map {ε α β : Type} {x : Except ε α} {g : α → β} {b : β} (h : x.map g = .ok b) :
    ∃ a, x = .ok a ∧ b = g a := by
  cases x with
  | error e => cases h
  | ok a => exact ⟨a, rfl, (Except.ok.inj h).symm⟩

theorem Program.of_call (h : Program.ofNode r (.call name args) = .ok p) :
    ∃ f ps, r.get? name = some f ∧ Program.ofNodes r args = .ok ps ∧ p = .call f ps := by
  rw [Program.ofNode, Registry.resolve] at h
  cases hf : r.get? name with
  | none =>
    rw [hf] at h
    cases h
  | some f =>
    rw [hf] at h
    obtain ⟨ps, hps, rfl⟩ := ok_of_map h
    exact ⟨f, ps, rfl, hps, rfl⟩

theorem Program.of_sequence (h : Program.ofNode r (.sequence items) = .ok p) :
    ∃ ps, Program.ofNodes r items = .ok ps ∧ p = .concat ps := by
  rw [Program.ofNode] at h
  exact ok_of_map h

theorem Program.of_cons (h : Program.ofNodes r (node :: nodes) = .ok ps) :
    ∃ p qs, Program.ofNode r node = .ok p ∧ Program.ofNodes r nodes = .ok qs ∧ ps = p :: qs := by
  rw [Program.ofNodes] at h
  cases hp : Program.ofNode r node with
  | error e =>
    rw [hp] at h
    cases h
  | ok p =>
    rw [hp] at h
    obtain ⟨qs, hqs, rfl⟩ := ok_of_map h
    exact ⟨p, qs, rfl, hqs, rfl⟩

end Compiling

section Agreement

open Pattern (Node)

variable {r : Registry Extension} {c : Context} {argv : List Value} {node : Node} {p : Program}

theorem Expression.item_of_lt {k : Int} (h₀ : 0 ≤ k) (hk : k < argv.length) :
    item argv k = .ok ((argv[k.toNat]?).getD .none) := by
  obtain ⟨v, hv⟩ : ∃ v, argv[k.toNat]? = some v := ⟨_, List.getElem?_eq_getElem (by omega)⟩
  simp only [item, if_pos h₀, hv, Option.getD_some]

theorem Expression.trace_reference {i : Int} (h : Node.InRange argv i) :
    (ofNode (.reference i)).trace r c argv = .ok (Program.argument argv i) := by
  obtain ⟨hlow, hhigh⟩ := h
  rw [ofNode, Program.argument]
  by_cases hi : 0 ≤ i
  · have hcast : (i.toNat : Int) = i := Int.toNat_of_nonneg hi
    simp only [if_pos hi, trace, hcast, item_of_lt hi hhigh]
  · have hcast : ((-i).toNat : Int) = -i := Int.toNat_of_nonneg (by omega)
    have hpos : 0 ≤ argv.length + i := by omega
    have hlt : argv.length + i < argv.length := by omega
    simp only [if_neg hi, trace, hcast, Int.sub_neg, item_of_lt hpos hlt, if_pos hpos]

theorem Program.trace_single (p : Program) : (Program.concat [p]).trace c argv =
    (p.trace c argv).text.andThen fun s => .ok (.text s) := by
  simp [Program.trace, Program.traceJoin]

theorem Program.trace_text (hp : Program.ofNode r node = .ok p)
    (h : node.isLiteral = true ∨ node.isSequence = true) :
    (p.trace c argv).text.andThen (fun s => .ok (.text s)) = p.trace c argv := by
  cases node with
  | literal s =>
    rw [Program.ofNode] at hp
    cases hp
    rfl
  | sequence items =>
    obtain ⟨ps, -, rfl⟩ := Program.of_sequence hp
    rw [Program.trace, Trace.text_andThen_ok]
  | reference i => simp [Node.isLiteral, Node.isSequence] at h
  | call name args => simp [Node.isLiteral, Node.isSequence] at h

theorem Pattern.Node.isTextual_cases (h : node.isTextual = true) :
    (node.isLiteral = true ∨ node.isSequence = true) ∧ node.fits = true := by
  cases node <;> simp_all [isTextual, isLiteral, isSequence, fits]

mutual

theorem Expression.agrees_node : ∀ (node : Node) (p : Program), Program.ofNode r node = .ok p →
    node.settled = true → (∀ i ∈ node.references, Node.InRange argv i) →
      ((ofNode node).trace r c argv).text.Agrees (p.trace c argv).text ∧
        (node.fits = true → ((ofNode node).trace r c argv).Agrees (p.trace c argv))
  | .literal s, p, hp, _, _ => by
    rw [Program.ofNode] at hp
    cases hp
    rw [ofNode, trace, Program.trace]
    exact ⟨.refl _, fun _ => .refl _⟩
  | .reference i, p, hp, _, hrange => by
    rw [Program.ofNode] at hp
    cases hp
    rw [trace_reference (hrange i (by simp [Node.references])), Program.trace]
    exact ⟨.refl _, fun _ => .refl _⟩
  | .call name args, p, hp, hset, hrange => by
    obtain ⟨f, ps, hf, hps, rfl⟩ := Program.of_call hp
    rw [Node.settled] at hset
    rw [Node.references] at hrange
    have hargs := agrees_arguments args ps hps hset hrange
    rw [ofNode, trace, hf, Program.trace]
    have hvalue := hargs.andThen fun vs => .refl (Trace.call c f vs)
    exact ⟨hvalue.text, fun _ => hvalue⟩
  | .sequence [], p, hp, _, _ => by
    obtain ⟨ps, hps, rfl⟩ := Program.of_sequence hp
    cases hps
    exact ⟨.refl _, fun _ => .refl _⟩
  | .sequence [single], p, hp, hset, hrange => by
    obtain ⟨ps, hps, rfl⟩ := Program.of_sequence hp
    obtain ⟨q, qs, hq, hqs, rfl⟩ := Program.of_cons hps
    cases hqs
    have hset : single.settled = true := by simpa [Node.settled, Node.settledAll] using hset
    have hrange : ∀ i ∈ single.references, Node.InRange argv i := by
      simpa [Node.references, Node.referencesAll] using hrange
    obtain ⟨htext, hvalue⟩ := agrees_node single q hq hset hrange
    rw [Program.trace_single]
    refine ⟨by rwa [Trace.text_andThen_ok], fun hfits => ?_⟩
    -- the item is left of the sequence, and its value is a text already
    have htextual : single.isTextual = true := by
      simpa [Node.fits, Node.isSequence, Node.isTextual] using hfits
    obtain ⟨hkind, hfits⟩ := Node.isTextual_cases htextual
    rw [Program.trace_text hq hkind]
    exact hvalue hfits
  | .sequence (first :: second :: more), p, hp, hset, hrange => by
    obtain ⟨ps, hps, rfl⟩ := Program.of_sequence hp
    rw [Node.settled] at hset
    rw [Node.references] at hrange
    have hitems := agrees_items (first :: second :: more) ps hps hset hrange
    have hvalue := hitems.andThen fun s => .refl (Trace.ok (Value.text s))
    rw [Program.trace]
    exact ⟨hvalue.text, fun _ => hvalue⟩

theorem Expression.agrees_arguments : ∀ (nodes : List Node) (ps : List Program),
    Program.ofNodes r nodes = .ok ps → Node.settledArguments nodes = true →
    (∀ i ∈ Node.referencesAll nodes, Node.InRange argv i) →
      (traceAll r c argv (ofNodes nodes)).Agrees (Program.traceAll c argv ps)
  | [], ps, hps, _, _ => by
    cases hps
    exact .refl _
  | node :: nodes, ps, hps, hset, hrange => by
    obtain ⟨p, qs, hp, hqs, rfl⟩ := Program.of_cons hps
    simp only [Node.settledArguments, Bool.and_eq_true] at hset
    rw [Node.referencesAll, List.forall_mem_append] at hrange
    obtain ⟨⟨hset, hfits⟩, hsets⟩ := hset
    have hnode := (agrees_node node p hp hset hrange.1).2 hfits
    have hnodes := agrees_arguments nodes qs hqs hsets hrange.2
    rw [ofNodes, traceAll, Program.traceAll]
    exact hnode.andThen fun v => hnodes.andThen fun vs => .refl _

theorem Expression.agrees_items : ∀ (nodes : List Node) (ps : List Program),
    Program.ofNodes r nodes = .ok ps → Node.settledAll nodes = true →
    (∀ i ∈ Node.referencesAll nodes, Node.InRange argv i) →
      ((traceAll r c argv (ofNodes nodes)).andThen Trace.joined).Agrees
        (Program.traceJoin c argv ps)
  | [], ps, hps, _, _ => by
    cases hps
    exact .refl _
  | node :: nodes, ps, hps, hset, hrange => by
    obtain ⟨p, qs, hp, hqs, rfl⟩ := Program.of_cons hps
    simp only [Node.settledAll, Bool.and_eq_true] at hset
    rw [Node.referencesAll, List.forall_mem_append] at hrange
    have hnode := (agrees_node node p hp hset.1 hrange.1).1
    have hnodes := agrees_items nodes qs hqs hset.2 hrange.2
    rw [ofNodes, traceAll, Program.traceJoin]
    -- first bring the text of this item before the evaluation of the others
    have hearly := (Trace.Agrees.refl ((ofNode node).trace r c argv)).andThen fun v =>
      Trace.agrees_joined v (traceAll r c argv (ofNodes nodes))
    have hrest := hnode.andThen fun s => hnodes.andThen fun t => .refl (Trace.ok (s ++ t))
    simp only [Trace.text, Trace.andThen_assoc, Trace.ok_andThen] at hearly hrest ⊢
    exact hearly.trans hrest

end

end Agreement

namespace Pattern.Node

variable {node node' : Node} {nodes nodes' : List Node}

/-- The second tree is written as the first, refers to the same arguments and calls no other
extensions. -/
structure Alike (node node' : Node) : Prop where
  expression : node'.expression = node.expression
  references : node'.references = node.references
  compiles : ∀ r p, Program.ofNode r node = .ok p → ∃ q, Program.ofNode r node' = .ok q

structure AlikeAll (nodes nodes' : List Node) : Prop where
  expressions : expressions nodes' = expressions nodes
  references : referencesAll nodes' = referencesAll nodes
  compiles : ∀ r ps, Program.ofNodes r nodes = .ok ps → ∃ qs, Program.ofNodes r nodes' = .ok qs

theorem Alike.refl (node : Node) : Alike node node := ⟨rfl, rfl, fun _ p h => ⟨p, h⟩⟩

theorem Alike.trans {node'' : Node} (h : Alike node node') (h' : Alike node' node'') :
    Alike node node'' where
  expression := h'.expression.trans h.expression
  references := h'.references.trans h.references
  compiles r p hp :=
    have ⟨q, hq⟩ := h.compiles r p hp
    h'.compiles r q hq

theorem AlikeAll.nil : AlikeAll [] [] := ⟨rfl, rfl, fun _ ps h => ⟨ps, h⟩⟩

theorem AlikeAll.cons (h : Alike node node') (hs : AlikeAll nodes nodes') :
    AlikeAll (node :: nodes) (node' :: nodes') where
  expressions := by rw [Node.expressions, Node.expressions, h.expression, hs.expressions]
  references := by rw [referencesAll, referencesAll, h.references, hs.references]
  compiles r ps hps := by
    obtain ⟨p, qs, hp, hqs, -⟩ := Program.of_cons hps
    obtain ⟨p', hp'⟩ := h.compiles r p hp
    obtain ⟨qs', hqs'⟩ := hs.compiles r qs hqs
    exact ⟨p' :: qs', by rw [Program.ofNodes, hp']; simp only [hqs']; rfl⟩

theorem AlikeAll.call (h : AlikeAll nodes nodes') (name : String) :
    Alike (.call name nodes) (.call name nodes') where
  expression := by rw [Node.expression, Node.expression, h.expressions]
  references := by rw [Node.references, Node.references, h.references]
  compiles r p hp := by
    obtain ⟨f, ps, hf, hps, -⟩ := Program.of_call hp
    obtain ⟨qs, hqs⟩ := h.compiles r ps hps
    exact ⟨.call f qs, by rw [Program.ofNode, Registry.resolve, hf]; simp only [hqs]; rfl⟩

theorem AlikeAll.sequence (h : AlikeAll nodes nodes') :
    Alike (.sequence nodes) (.sequence nodes') where
  expression := by rw [Node.expression, Node.expression, h.expressions]
  references := by rw [Node.references, Node.references, h.references]
  compiles r p hp := by
    obtain ⟨ps, hps, -⟩ := Program.of_sequence hp
    obtain ⟨qs, hqs⟩ := h.compiles r ps hps
    exact ⟨.concat qs, by rw [Program.ofNode, hqs]; rfl⟩

theorem alike_single (node : Node) : Alike (.sequence [node]) node where
  expression := (Expression.expression_single node).symm
  references := by rw [references, referencesAll, referencesAll, List.append_nil]
  compiles r p hp := by
    obtain ⟨ps, hps, -⟩ := Program.of_sequence hp
    obtain ⟨q, qs, hq, -, -⟩ := Program.of_cons hps
    exact ⟨q, hq⟩

theorem core_spec (node : Node) : Alike node node.core ∧ node.core.fits = true ∧
    (node.settled = true → node.core.settled = true) := by
  fun_induction core node with
  | case1 single ih =>
    obtain ⟨halike, hfits, hset⟩ := ih
    refine ⟨(alike_single single).trans halike, hfits, fun h => hset ?_⟩
    simpa [settled, settledAll] using h
  | case2 node h =>
    refine ⟨.refl node, ?_, id⟩
    cases node with
    | sequence items =>
      cases items with
      | nil => rfl
      | cons first more =>
        cases more with
        | nil => exact absurd rfl (h first)
        | cons second more => rfl
    | literal s => rfl
    | reference i => rfl
    | call name args => rfl

mutual

theorem bare_spec : ∀ node : Node, Alike node node.bare ∧ node.bare.settled = true
  | literal s => ⟨.refl _, rfl⟩
  | reference i => ⟨.refl _, rfl⟩
  | call name args => by
    obtain ⟨halike, hset⟩ := bareArguments_spec args
    rw [bare, settled]
    exact ⟨halike.call name, hset⟩
  | sequence items => by
    obtain ⟨halike, hset⟩ := bareAll_spec items
    rw [bare, settled]
    exact ⟨halike.sequence, hset⟩

theorem bareAll_spec : ∀ nodes : List Node,
    AlikeAll nodes (bareAll nodes) ∧ settledAll (bareAll nodes) = true
  | [] => ⟨.nil, rfl⟩
  | node :: nodes => by
    obtain ⟨halike, hset⟩ := bare_spec node
    obtain ⟨halikes, hsets⟩ := bareAll_spec nodes
    rw [bareAll, settledAll, hset, hsets]
    exact ⟨AlikeAll.cons halike halikes, rfl⟩

theorem bareArguments_spec : ∀ nodes : List Node,
    AlikeAll nodes (bareArguments nodes) ∧ settledArguments (bareArguments nodes) = true
  | [] => ⟨.nil, rfl⟩
  | node :: nodes => by
    obtain ⟨halike, hset⟩ := bare_spec node
    obtain ⟨halikes, hsets⟩ := bareArguments_spec nodes
    obtain ⟨hcore, hfits, hcoreset⟩ := core_spec node.bare
    rw [bareArguments, settledArguments, hcoreset hset, hfits, hsets]
    exact ⟨AlikeAll.cons (halike.trans hcore) halikes, rfl⟩

end

end Pattern.Node

section Sources

variable {r : Registry Extension} {pattern : String} {node : Pattern.Node} {f : Formatter}

theorem Formatter.of_node (h : Formatter.ofNode r pattern node = .ok f) :
    Program.ofNode r node = .ok f.program ∧ node.expression = some f.source := by
  unfold Formatter.ofNode at h
  cases hp : Program.ofNode r node with
  | error e =>
    rw [hp] at h
    cases h
  | ok p =>
    rw [hp] at h
    cases he : node.expression with
    | none =>
      simp only [he] at h
      cases h
    | some source =>
      simp only [he] at h
      cases h
      exact ⟨rfl, rfl⟩

theorem Formatter.source_alike {node' : Pattern.Node} (h : Formatter.ofNode r pattern node = .ok f)
    (hn : node.Alike node') :
    ∃ g, Formatter.ofNode r pattern node' = .ok g ∧ g.source = f.source := by
  obtain ⟨hp, he⟩ := of_node h
  obtain ⟨q, hq⟩ := hn.compiles r f.program hp
  refine ⟨⟨pattern, f.source, q⟩, ?_, rfl⟩
  rw [Formatter.ofNode, hq, hn.expression, he]
  rfl

theorem Formatter.read_source (h : Formatter.ofNode r pattern node = .ok f) :
    Expression.read f.source = some (Expression.ofNode node) :=
  Expression.read_expression (of_node h).2

theorem Formatter.agrees (h : Formatter.ofNode r pattern node = .ok f)
    (hset : node.settled = true) {c : Context} {args : List Value}
    (hrange : ∀ i ∈ node.references, Pattern.Node.InRange (c.self :: args) i) :
    ((Expression.ofNode node).run r c args).Agrees (f.trace c args) :=
  (Expression.agrees_node node f.program (of_node h).1 hset hrange).1

/-- The source of a formatter is an expression that does what the formatter does, in the same order
and with the same outcome, provided that all arguments that are referred to are there and that no
call is given a sequence of one item that makes a value a text. For every tree it does what the
formatter of the tree without such sequences does, which has the same source. -/
theorem source_evaluates (h : Formatter.ofNode r pattern node = .ok f) :
    ∃ e, Expression.read f.source = some e ∧
      (node.settled = true → ∀ c args,
        (∀ i ∈ node.references, Pattern.Node.InRange (c.self :: args) i) →
          (e.run r c args).Agrees (f.trace c args)) ∧
      (∃ g, Formatter.ofNode r pattern node.bare = .ok g ∧ g.source = f.source ∧ ∀ c args,
        (∀ i ∈ node.references, Pattern.Node.InRange (c.self :: args) i) →
          (e.run r c args).Agrees (g.trace c args)) ∧
      ∀ c args, (f.trace c args).outcome = f.run c args := by
  obtain ⟨halike, hset⟩ := Pattern.Node.bare_spec node
  obtain ⟨g, hg, hsource⟩ := Formatter.source_alike h halike
  have hread := Formatter.read_source h
  -- both trees are read from one source, so their expressions are the same
  have hsame : Expression.ofNode node = Expression.ofNode node.bare := by
    have hread' := Formatter.read_source hg
    rw [hsource, hread] at hread'
    exact Option.some.inj hread'
  refine ⟨_, hread, fun hnode c args hrange => Formatter.agrees h hnode hrange,
    ⟨g, hg, hsource, fun c args hrange => ?_⟩, f.outcome_trace⟩
  rw [hsame]
  exact Formatter.agrees hg hset (halike.references ▸ hrange)

/-- A call is given an argument as it is. -/
theorem source_evaluates_reference :
    let r : Registry Extension := .ofList [("show", fun _ args => .ok (.list args))]
    let node : Pattern.Node := .sequence [.call "show" [.reference 1], .literal "!"]
    ∃ f e, Formatter.ofNode r "" node = .ok f ∧ Expression.read f.source = some e ∧
      (e.run r (.ofValue .none) [.int 5]).Agrees (f.trace (.ofValue .none) [.int 5]) := by
  intro r node
  obtain ⟨f, hf⟩ : ∃ f, Formatter.ofNode r "" node = .ok f := ⟨_, rfl⟩
  obtain ⟨e, hread, hagrees, -⟩ := source_evaluates hf
  refine ⟨f, e, hf, hread, hagrees rfl _ _ fun i hi => ?_⟩
  obtain rfl : i = 1 := List.mem_singleton.1 hi
  exact ⟨by decide, by decide⟩

/-- A call is given the text of an argument, but its source gives the argument as it is. -/
theorem source_of_unsettled :
    let r : Registry Extension := .ofList [("show", fun _ args => .ok (.list args))]
    let node : Pattern.Node := .sequence [.call "show" [.sequence [.reference 1]]]
    ∃ f e, Formatter.ofNode r "" node = .ok f ∧ Expression.read f.source = some e ∧
      (f.trace (.ofValue .none) [.int 5]).calls.map (·.args) = [[.text "5"]] ∧
      (e.run r (.ofValue .none) [.int 5]).calls.map (·.args) = [[.int 5]] := by
  intro r node
  obtain ⟨f, hf⟩ : ∃ f, Formatter.ofNode r "" node = .ok f := ⟨_, rfl⟩
  refine ⟨f, _, hf, Formatter.read_source hf, ?_, rfl⟩
  cases hf
  rfl

end Sources

end Phrasebook
