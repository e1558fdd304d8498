import Phrasebook.Proofs.Formatter.Composition

/-!
# The names that a pattern calls

Compiling a pattern that can be read looks up the names that are called in it and nothing else, so
it succeeds where they are all registered.
-/

namespace Phrasebook

namespace Pattern.Node

mutual

def calls : Node → List String
  | literal _ => []
  | reference _ => []
  | call name args => name :: callsAll args
  | sequence items => callsAll items

def callsAll : List Node → List String
  | [] => []
  | node :: nodes => calls node ++ callsAll nodes

end

end Pattern.Node

namespace Program

variable {r : Registry Extension}

mutual

theorem ofNode_registered : ∀ node : Pattern.Node, (∀ name ∈ node.calls, r.contains name) →
    ∃ p, ofNode r node = .ok p
  | .literal s, _ => ⟨.text s, by rw [ofNode]⟩
  | .reference i, _ => ⟨.select i, by rw [ofNode]⟩
  | .call name args, h => by
    rw [Pattern.Node.calls] at h
    obtain ⟨hname, hargs⟩ := List.forall_mem_cons.1 h
    obtain ⟨f, hf⟩ := Option.isSome_iff_exists.1 hname
    obtain ⟨ps, hps⟩ := ofNodes_registered args hargs
    refine ⟨.call f ps, ?_⟩
    rw [ofNode, Registry.resolve, hf]
    simp only [hps]
    rfl
  | .sequence items, h => by
    rw [Pattern.Node.calls] at h
    obtain ⟨ps, hps⟩ := ofNodes_registered items h
    exact ⟨.concat ps, by rw [ofNode, hps]; rfl⟩

theorem ofNodes_registered : ∀ nodes : List Pattern.Node,
    (∀ name ∈ Pattern.Node.callsAll nodes, r.contains name) → ∃ ps, ofNodes r nodes = .ok ps
  | [], _ => ⟨[], by rw [ofNodes]⟩
  | node :: nodes, h => by
    rw [Pattern.Node.callsAll] at h
    obtain ⟨hnode, hnodes⟩ := List.forall_mem_append.1 h
    obtain ⟨p, hp⟩ := ofNode_registered node hnode
    obtain ⟨ps, hps⟩ := ofNodes_registered nodes hnodes
    exact ⟨p :: ps, by rw [ofNodes, hp]; simp only [hps]; rfl⟩

end

end Program

theorem Formatter.ofPattern_registered {r : Registry Extension} {pattern : String}
    {node : Pattern.Node} (hp : Pattern.parse pattern = .ok node)
    (hr : ∀ name ∈ node.calls, r.contains name) : ∃ f, ofPattern r pattern = .ok f := by
  obtain ⟨nodes, rfl, -⟩ := Pattern.parseWithin_ok hp
  obtain ⟨source, hsource⟩ := ofPatternWithin_parsed hp
  rw [Pattern.Node.calls] at hr
  obtain ⟨ps, hps⟩ := Program.ofNodes_registered nodes hr
  refine ⟨⟨pattern, source, .concat ps⟩, ?_⟩
  rw [← ofPatternWithin_default, hsource, hps]
  rfl

end Phrasebook
