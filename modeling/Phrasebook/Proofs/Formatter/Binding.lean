import Phrasebook.Proofs.Formatter.Names
import Phrasebook.Proofs.Formatter.Source

/-!
# Names are bound by compiling

Compiling goes through the calls of a tree, each before the calls in its arguments, and stops at the
first name that is not registered. A formatter does what the tree does under the registry as it was
then: each call is made to the function that had the name, whatever is registered later. So a name
that is not known can only be met again inside a function that is called.
-/

namespace Phrasebook

variable {r : Registry Extension} {node : Pattern.Node} {nodes : List Pattern.Node} {p : Program}
  {ps : List Program}

namespace Registry

def firstUnknown? (r : Registry Extension) (names : List String) : Option String :=
  names.find? fun name => !r.contains name

theorem firstUnknown?_append (r : Registry Extension) (names others : List String) :
    r.firstUnknown? (names ++ others) = (r.firstUnknown? names).or (r.firstUnknown? others) :=
  List.find?_append

theorem firstUnknown?_eq_none_iff {names : List String} :
    r.firstUnknown? names = none ↔ ∀ name ∈ names, r.contains name := by
  simp [firstUnknown?]

theorem firstUnknown?_isSome_iff {names : List String} :
    (∃ name, r.firstUnknown? names = some name) ↔ ∃ name ∈ names, ¬ r.contains name := by
  rw [← Option.isSome_iff_exists, firstUnknown?, List.find?_isSome]
  simp

theorem resolve_unknown {name : String} (h : ¬ r.contains name) :
    r.resolve name = .error (.unknownExtension name) := by
  have hnone : r.get? name = none := by simpa [Table.contains] using h
  rw [resolve, hnone]

end Registry

section Unknown

open Pattern.Node (calls callsAll)

mutual

theorem Program.ofNode_unknown : ∀ (node : Pattern.Node) (name : String),
    r.firstUnknown? node.calls = some name → ofNode r node = .error (.unknownExtension name)
  | .literal s, name, h => by
    rw [calls] at h
    contradiction
  | .reference i, name, h => by
    rw [calls] at h
    contradiction
  | .call name' args, name, h => by
    rw [calls, Registry.firstUnknown?, List.find?_cons] at h
    by_cases hc : r.contains name'
    · rw [hc] at h
      obtain ⟨f, hf⟩ := Option.isSome_iff_exists.1 hc
      rw [ofNode, Registry.resolve, hf]
      simp only [ofNodes_unknown args name h]
      rfl
    · rw [Bool.eq_false_iff.2 hc] at h
      obtain rfl := Option.some.inj h
      rw [ofNode, Registry.resolve_unknown hc]
  | .sequence items, name, h => by
    rw [calls] at h
    rw [ofNode, ofNodes_unknown items name h]
    rfl

theorem Program.ofNodes_unknown : ∀ (nodes : List Pattern.Node) (name : String),
    r.firstUnknown? (callsAll nodes) = some name → ofNodes r nodes = .error (.unknownExtension name)
  | [], name, h => by
    rw [callsAll] at h
    contradiction
  | node :: nodes, name, h => by
    rw [callsAll, Registry.firstUnknown?_append] at h
    cases hnode : r.firstUnknown? node.calls with
    | some name' =>
      rw [hnode, Option.some_or] at h
      obtain rfl := Option.some.inj h
      rw [ofNodes, ofNode_unknown node name' hnode]
    | none =>
      rw [hnode, Option.none_or] at h
      obtain ⟨p, hp⟩ := ofNode_registered node (Registry.firstUnknown?_eq_none_iff.1 hnode)
      rw [ofNodes, hp]
      simp only [ofNodes_unknown nodes name h]
      rfl

end

end Unknown

section Expressions

def Pattern.Node.LongIndex (i : Int) : Prop := Value.maxDigits < (Text.digits i.natAbs).length

instance (i : Int) : Decidable (Pattern.Node.LongIndex i) := inferInstanceAs (Decidable (_ < _))

theorem Pattern.Node.indexExpression_eq_none_iff {i : Int} :
    indexExpression i = none ↔ LongIndex i := by
  rw [indexExpression, LongIndex]
  split
  · rw [Option.map_eq_none_iff, Value.intText_eq_none_iff]
  · rw [Option.map_eq_none_iff, Value.intText_eq_none_iff, Int.natAbs_neg]

theorem Pattern.Node.expression_sequence_eq_none_iff :
    expression (.sequence nodes) = none ↔ expressions nodes = none := by
  cases h : expressions nodes with
  | some es =>
    obtain ⟨e, he⟩ := expression_sequence h
    simp [he]
  | none => simp [expression, h]

mutual

theorem Pattern.Node.expression_eq_none_iff : ∀ node : Node,
    node.expression = none ↔ ∃ i ∈ node.references, LongIndex i
  | .literal s => by simp [expression, references]
  | .reference i => by simp [expression, references, indexExpression_eq_none_iff]
  | .call name args => by
    rw [references, ← expressions_eq_none_iff args, expression]
    cases expressions args <;> simp
  | .sequence items => by
    rw [references, ← expressions_eq_none_iff items, expression_sequence_eq_none_iff]

theorem Pattern.Node.expressions_eq_none_iff : ∀ nodes : List Node,
    expressions nodes = none ↔ ∃ i ∈ referencesAll nodes, LongIndex i
  | [] => by simp [expressions, referencesAll]
  | node :: nodes => by
    have hnode := expression_eq_none_iff node
    have hnodes := expressions_eq_none_iff nodes
    have hcons : expressions (node :: nodes) = none ↔
        node.expression = none ∨ expressions nodes = none := by
      rw [expressions]
      cases node.expression <;> cases expressions nodes <;> simp
    simp only [hcons, hnode, hnodes, referencesAll, List.mem_append, or_and_right, exists_or]

end

end Expressions

namespace Pattern.Node

variable (r : Registry Extension) (c : Context) (argv : List Value)

mutual

/-- What a tree does if each name is looked up when it is called. -/
def interpret : Node → Trace Value
  | literal s => .ok (.text s)
  | reference i => .ok (Program.argument argv i)
  | call name args =>
    match r.get? name with
    | some f => (interpretAll args).andThen (.call c f)
    | none => .fail (.unknownExtension name)
  | sequence items => (interpretJoin items).andThen fun s => .ok (.text s)

def interpretAll : List Node → Trace (List Value)
  | [] => .ok []
  | node :: nodes =>
    (interpret node).andThen fun v => (interpretAll nodes).andThen fun vs => .ok (v :: vs)

def interpretJoin : List Node → Trace String
  | [] => .ok ""
  | node :: nodes =>
    (interpret node).text.andThen fun s => (interpretJoin nodes).andThen fun t => .ok (s ++ t)

end

end Pattern.Node

namespace Program

open Pattern.Node (interpret interpretAll interpretJoin)

mutual

/-- A program does what its tree does under the registry that it was compiled with. -/
theorem trace_eq_interpret (c : Context) (argv : List Value) : ∀ (node : Pattern.Node)
    (p : Program), ofNode r node = .ok p → p.trace c argv = node.interpret r c argv
  | .literal s, p, h => by
    rw [ofNode] at h
    cases h
    rw [trace, interpret]
  | .reference i, p, h => by
    rw [ofNode] at h
    cases h
    rw [trace, interpret]
  | .call name args, p, h => by
    obtain ⟨f, ps, hf, hps, rfl⟩ := of_call h
    rw [trace, interpret, hf, traceAll_eq_interpret c argv args ps hps]
  | .sequence items, p, h => by
    obtain ⟨ps, hps, rfl⟩ := of_sequence h
    rw [trace, interpret, traceJoin_eq_interpret c argv items ps hps]

theorem traceAll_eq_interpret (c : Context) (argv : List Value) : ∀ (nodes : List Pattern.Node)
    (ps : List Program), ofNodes r nodes = .ok ps → traceAll c argv ps = interpretAll r c argv nodes
  | [], ps, h => by
    rw [ofNodes] at h
    cases h
    rw [traceAll, interpretAll]
  | node :: nodes, ps, h => by
    obtain ⟨p, qs, hp, hqs, rfl⟩ := of_cons h
    rw [traceAll, interpretAll, trace_eq_interpret c argv node p hp,
      traceAll_eq_interpret c argv nodes qs hqs]

theorem traceJoin_eq_interpret (c : Context) (argv : List Value) : ∀ (nodes : List Pattern.Node)
    (ps : List Program), ofNodes r nodes = .ok ps → traceJoin c argv ps = interpretJoin r c argv nodes
  | [], ps, h => by
    rw [ofNodes] at h
    cases h
    rw [traceJoin, interpretJoin]
  | node :: nodes, ps, h => by
    obtain ⟨p, qs, hp, hqs, rfl⟩ := of_cons h
    rw [traceJoin, interpretJoin, trace_eq_interpret c argv node p hp,
      traceJoin_eq_interpret c argv nodes qs hqs]

end

end Program

namespace Trace

variable {α β : Type} {names : List String} {c : Context} {t : Trace α}

/-- All calls are of functions that have one of these names, and a fault is that of a call, unless
an integer could not be written. -/
structure Founded (r : Registry Extension) (names : List String) (c : Context) (t : Trace α) :
    Prop where
  bound : ∀ call ∈ t.calls, ∃ name ∈ names, r.get? name = some call.extension
  fault : ∀ f, t.result = .error f →
    f = .longNumber ∨ ∃ call ∈ t.calls, (call.extension c call.args).result = .error f

theorem founded_ok (a : α) : (ok a).Founded r names c := ⟨nofun, nofun⟩

theorem founded_textOf (v : Value) : (textOf v).Founded r names c := by
  cases hv : v.rendered with
  | some s =>
    have htext : textOf v = ok s := by rw [textOf, hv]; rfl
    rw [htext]
    exact founded_ok s
  | none =>
    rw [textOf_none hv]
    exact ⟨nofun, fun f hf => .inl (Except.error.inj hf).symm⟩

theorem founded_call {name : String} {f : Extension} (hname : name ∈ names)
    (hf : r.get? name = some f) (args : List Value) : (call c f args).Founded r names c := by
  refine ⟨fun k hk => ?_, fun fault hfault => .inr ⟨⟨f, args⟩, List.mem_singleton_self _, hfault⟩⟩
  obtain rfl := List.mem_singleton.1 hk
  exact ⟨name, hname, hf⟩

theorem Founded.mono {names' : List String} (h : t.Founded r names c) (hn : names ⊆ names') :
    t.Founded r names' c := by
  refine ⟨fun call hcall => ?_, h.fault⟩
  obtain ⟨name, hname, hf⟩ := h.bound call hcall
  exact ⟨name, hn hname, hf⟩

theorem Founded.andThen {k : α → Trace β} (h : t.Founded r names c)
    (hk : ∀ a, (k a).Founded r names c) : (t.andThen k).Founded r names c := by
  obtain ⟨calls, notices, f | a⟩ := t
  · refine ⟨h.bound, fun g hg => ?_⟩
    obtain rfl : f = g := Except.error.inj hg
    exact h.fault f rfl
  · refine ⟨fun call hcall => ?_, fun g hg => ?_⟩
    · rcases List.mem_append.1 hcall with hcall | hcall
      · exact h.bound call hcall
      · exact (hk a).bound call hcall
    · refine ((hk a).fault g hg).imp_right ?_
      rintro ⟨call, hcall, hresult⟩
      exact ⟨call, List.mem_append_right _ hcall, hresult⟩

theorem Founded.text {t : Trace Value} (h : t.Founded r names c) : t.text.Founded r names c :=
  h.andThen founded_textOf

end Trace

namespace Program

open Pattern.Node (calls callsAll)

mutual

theorem founded_trace (c : Context) (argv : List Value) : ∀ (node : Pattern.Node) (p : Program),
    ofNode r node = .ok p → (p.trace c argv).Founded r node.calls c
  | .literal s, p, h => by
    rw [ofNode] at h
    cases h
    rw [trace]
    exact Trace.founded_ok _
  | .reference i, p, h => by
    rw [ofNode] at h
    cases h
    rw [trace]
    exact Trace.founded_ok _
  | .call name args, p, h => by
    obtain ⟨f, ps, hf, hps, rfl⟩ := of_call h
    rw [trace, calls]
    exact ((founded_traceAll c argv args ps hps).mono (List.subset_cons_self _ _)).andThen
      (Trace.founded_call List.mem_cons_self hf)
  | .sequence items, p, h => by
    obtain ⟨ps, hps, rfl⟩ := of_sequence h
    rw [trace, calls]
    exact (founded_traceJoin c argv items ps hps).andThen fun _ => Trace.founded_ok _

theorem founded_traceAll (c : Context) (argv : List Value) : ∀ (nodes : List Pattern.Node)
    (ps : List Program), ofNodes r nodes = .ok ps → (traceAll c argv ps).Founded r (callsAll nodes) c
  | [], ps, h => by
    rw [ofNodes] at h
    cases h
    rw [traceAll]
    exact Trace.founded_ok _
  | node :: nodes, ps, h => by
    obtain ⟨p, qs, hp, hqs, rfl⟩ := of_cons h
    have hnode := (founded_trace c argv node p hp).mono (List.subset_append_left _ (callsAll nodes))
    have hrest := (founded_traceAll c argv nodes qs hqs).mono (List.subset_append_right node.calls _)
    rw [traceAll, callsAll]
    exact hnode.andThen fun _ => hrest.andThen fun _ => Trace.founded_ok _

theorem founded_traceJoin (c : Context) (argv : List Value) : ∀ (nodes : List Pattern.Node)
    (ps : List Program), ofNodes r nodes = .ok ps →
      (traceJoin c argv ps).Founded r (callsAll nodes) c
  | [], ps, h => by
    rw [ofNodes] at h
    cases h
    rw [traceJoin]
    exact Trace.founded_ok _
  | node :: nodes, ps, h => by
    obtain ⟨p, qs, hp, hqs, rfl⟩ := of_cons h
    have hnode := (founded_trace c argv node p hp).mono (List.subset_append_left _ (callsAll nodes))
    have hrest := (founded_traceJoin c argv nodes qs hqs).mono
      (List.subset_append_right node.calls _)
    rw [traceJoin, callsAll]
    exact hnode.text.andThen fun _ => hrest.andThen fun _ => Trace.founded_ok _

end

end Program

namespace Formatter

open Pattern.Node (LongIndex)

variable {pattern : String}

theorem ofNode_unknown {name : String} (h : r.firstUnknown? node.calls = some name) :
    ofNode r pattern node = .error (.unknownExtension name) := by
  rw [ofNode, Program.ofNode_unknown node name h]
  rfl

theorem ofNode_known (pattern : String) (h : r.firstUnknown? node.calls = none) :
    ((∃ i ∈ node.references, LongIndex i) ∧ ofNode r pattern node = .error .longNumber) ∨
    ((∀ i ∈ node.references, ¬ LongIndex i) ∧ ∃ f, ofNode r pattern node = .ok f) := by
  obtain ⟨p, hp⟩ := Program.ofNode_registered node (Registry.firstUnknown?_eq_none_iff.1 h)
  rw [ofNode, hp]
  cases he : node.expression with
  | none => exact .inl ⟨(Pattern.Node.expression_eq_none_iff node).1 he, rfl⟩
  | some source =>
    refine .inr ⟨fun i hi hlong => ?_, ⟨_, rfl⟩⟩
    rw [(Pattern.Node.expression_eq_none_iff node).2 ⟨i, hi, hlong⟩] at he
    contradiction

theorem ofNode_unknown_iff {name : String} :
    ofNode r pattern node = .error (.unknownExtension name) ↔
      r.firstUnknown? node.calls = some name := by
  refine ⟨fun h => ?_, ofNode_unknown⟩
  cases hfirst : r.firstUnknown? node.calls with
  | some name' =>
    rw [ofNode_unknown hfirst] at h
    cases h
    rfl
  | none =>
    obtain ⟨-, hlong⟩ | ⟨-, f, hf⟩ := ofNode_known pattern hfirst
    · rw [hlong] at h
      cases h
    · rw [hf] at h
      cases h

theorem short_of_parse (h : Pattern.parse pattern = .ok node) :
    ∀ i ∈ node.references, ¬ LongIndex i := by
  obtain ⟨nodes, rfl, -⟩ := Pattern.parseWithin_ok h
  obtain ⟨source, hsource⟩ := (Pattern.printable_of_parse h).expression
  intro i hi hlong
  rw [(Pattern.Node.expression_eq_none_iff _).2 ⟨i, hi, hlong⟩] at hsource
  contradiction

/-- Compiling fails for a name exactly if it is the first one called that is not registered, and so
for some name exactly if a name that is called is not registered. Otherwise there is a formatter,
unless an index is too long to be written, which is in no tree that a pattern is read as. The
formatter does what the tree does under the registry that it was compiled with, it calls functions of
that registry only, and that a name is not known it says only if one of them said so. -/
theorem compiling_binds (r : Registry Extension) (pattern : String) (node : Pattern.Node) :
    ((∃ name, ofNode r pattern node = .error (.unknownExtension name)) ↔
      ∃ name ∈ node.calls, ¬ r.contains name) ∧
    (∀ name, ofNode r pattern node = .error (.unknownExtension name) →
      node.calls.find? (fun name => !r.contains name) = some name) ∧
    ((∀ name ∈ node.calls, r.contains name) →
      ((∃ i ∈ node.references, LongIndex i) ∧ ofNode r pattern node = .error .longNumber) ∨
      ((∀ i ∈ node.references, ¬ LongIndex i) ∧ ∃ f, ofNode r pattern node = .ok f)) ∧
    (Pattern.parse pattern = .ok node → ∀ i ∈ node.references, ¬ LongIndex i) ∧
    ∀ f, ofNode r pattern node = .ok f → ∀ c args,
      f.trace c args = (node.interpret r c (c.self :: args)).text ∧
      (∀ call ∈ (f.trace c args).calls, ∃ name ∈ node.calls, r.get? name = some call.extension) ∧
      ((∀ call ∈ (f.trace c args).calls, ∀ name,
          (call.extension c call.args).result ≠ .error (.unknownExtension name)) →
        ∀ name, (f.run c args).result ≠ .error (.unknownExtension name)) := by
  refine ⟨?_, fun name h => ofNode_unknown_iff.1 h, fun h => ?_, short_of_parse,
    fun f hf c args => ?_⟩
  · simp only [ofNode_unknown_iff]
    exact Registry.firstUnknown?_isSome_iff
  · exact ofNode_known pattern (Registry.firstUnknown?_eq_none_iff.2 h)
  · obtain ⟨hp, -⟩ := of_node hf
    have hfounded : (f.trace c args).Founded r node.calls c :=
      (Program.founded_trace c (c.self :: args) node f.program hp).text
    refine ⟨?_, hfounded.bound, fun hcalls name hname => ?_⟩
    · rw [trace, Program.trace_eq_interpret c _ node f.program hp]
    · rw [← f.outcome_trace] at hname
      obtain hlong | ⟨call, hcall, hresult⟩ := hfounded.fault _ hname
      · contradiction
      · exact hcalls call hcall name hresult

/-- Of three names that are not registered, the one that is called first is told. -/
theorem compiling_binds_nested :
    let r : Registry Extension := .ofList [("f", fun _ args => .ok (.list args))]
    ofNode r "" (.sequence [.call "f" [.call "g" [.call "h" []]], .call "k" []]) =
      .error (.unknownExtension "g") ∧
    ∃ f, ofNode r "" (.call "f" [.reference 1]) = .ok f ∧
      ∀ c args name, (f.run c args).result ≠ .error (.unknownExtension name) := by
  intro r
  have hnested := compiling_binds r "" (.sequence [.call "f" [.call "g" [.call "h" []]], .call "k" []])
  obtain ⟨name, hname⟩ := hnested.1.2 ⟨"g", by decide, by decide⟩
  have hfirst : some "g" = some name := hnested.2.1 name hname
  obtain rfl := Option.some.inj hfirst
  obtain ⟨-, -, hknown, -, hformat⟩ := compiling_binds r "" (.call "f" [.reference 1])
  obtain ⟨⟨i, hi, hlong⟩, -⟩ | ⟨-, f, hf⟩ := hknown (by decide)
  · obtain rfl := List.mem_singleton.1 hi
    exact absurd hlong (by decide)
  · refine ⟨hname, f, hf, fun c args => ?_⟩
    obtain ⟨-, hbound, hcalls⟩ := hformat f hf c args
    refine hcalls fun call hcall name hresult => ?_
    obtain ⟨n, hn, hextension⟩ := hbound call hcall
    obtain rfl := List.mem_singleton.1 hn
    rw [← Option.some.inj hextension] at hresult
    contradiction

end Formatter

end Phrasebook
