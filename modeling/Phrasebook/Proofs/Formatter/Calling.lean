import Phrasebook.Proofs.Formatter.Names
import Phrasebook.Proofs.Pattern.Printing

/-!
# Names that can be called

A registry takes every name that is spelled like a name, and a pattern calls registered names only.
Not every one of them can be called: a method token is read as a reference first, so a name that
starts with an underscore and a digit is never read as a name. All others can be called, with all
arguments that can be written.
-/

namespace Phrasebook

namespace Pattern

variable {limit : Int} {pattern name : String} {node tree : Node} {nodes args : List Node}

/-- A method token that is spelled like this is a reference, or has something behind one. -/
def StartsLikeReference (name : String) : Prop :=
  ∃ c s, name.toList = '_' :: c :: s ∧ c.isDigit = true

theorem isMethodName_iff :
    IsMethodName name.toList ↔ isName name.toList = true ∧ ¬ StartsLikeReference name := by
  unfold IsMethodName StartsLikeReference
  simp only [not_exists, not_and, Bool.not_eq_true]

theorem Node.mem_callsAll : name ∈ callsAll nodes ↔ ∃ node ∈ nodes, name ∈ node.calls := by
  induction nodes with
  | nil => simp [callsAll]
  | cons node nodes ih => simp [callsAll, ih]

theorem Argument.calls_names (h : Argument node) :
    ∀ name ∈ node.calls, IsMethodName name.toList := by
  induction h with
  | text => simp [Node.calls]
  | reference => simp [Node.calls]
  | call hn _ ih =>
    intro name hname
    rw [Node.calls, List.mem_cons, Node.mem_callsAll] at hname
    rcases hname with rfl | ⟨arg, harg, hname⟩
    · exact hn
    · exact ih arg harg name hname
  | list _ _ ih =>
    intro name hname
    rw [Node.calls, Node.mem_callsAll] at hname
    obtain ⟨arg, harg, hname⟩ := hname
    exact ih arg harg name hname

theorem calls_of_parse (h : parseWithin limit pattern = .ok tree) (hname : name ∈ tree.calls) :
    IsMethodName name.toList := by
  obtain ⟨nodes, rfl, -⟩ := parseWithin_ok h
  rw [Node.calls, Node.mem_callsAll] at hname
  obtain ⟨node, hnode, hname⟩ := hname
  cases printable_of_parse h node hnode with
  | text => simp [Node.calls] at hname
  | directive harg => exact harg.calls_names name hname

def written (name : String) (args : List Node) : String :=
  String.ofList (Node.call name args).written

theorem parse_written (hn : IsMethodName name.toList) (hargs : ∀ a ∈ args, Argument a)
    (hdepth : (Node.nestingAll args : Int) < limit) :
    parseWithin limit (written name args) = .ok (.sequence [.call name args]) := by
  have hroom : (Node.call name args).nesting ≤ limit.toNat := by
    rw [Node.nesting]
    omega
  have hdirective := ((Argument.call hn hargs).is_written limit.toNat hroom).2 rfl
  have hrun : Derives (.run .outside false) limit.toNat
      ((Node.call name args).written ++ []) ([.call name args] ++ []) := .nested hdirective .done
  rw [List.append_nil, List.append_nil] at hrun
  unfold parseWithin written
  rw [String.toList_ofList, items_complete limit hrun]

end Pattern

namespace Registry

variable {φ : Type} {name : String} {f : φ}

theorem register_text (r : Registry φ) (name : String) (f : φ) :
    (∃ r', r.register (.text name) (.function f) = .ok r') ↔
      Pattern.isName name.toList = true := by
  unfold register isName
  by_cases h : Pattern.isName name.toList = true <;> simp [h]

theorem resolve_register {r r' : Registry φ}
    (h : r.register (.text name) (.function f) = .ok r') : r'.resolve name = .ok f := by
  have hname : isName (.text name) = some name := if_pos ((register_text r name f).mp ⟨r', h⟩)
  unfold register at h
  rw [hname] at h
  rw [← Except.ok.inj h, resolve, Table.get?_insert, if_pos rfl]

end Registry

open Pattern in
/-- A name can be called by a pattern, however deep directives may nest, if and only if it can be
registered and does not start like a reference: what is registered under such a name is never
called. Every other registered name is called, with the extension that it was registered with, by
its call written with any arguments that can be written, as deep as they nest. -/
theorem callable_iff_registrable {φ : Type} (r : Registry φ) (f : φ) (name : String) :
    ((∃ limit pattern tree, parseWithin limit pattern = .ok tree ∧ name ∈ tree.calls) ↔
      (∃ r', r.register (.text name) (.function f) = .ok r') ∧ ¬ StartsLikeReference name) ∧
    ∀ r', r.register (.text name) (.function f) = .ok r' → ¬ StartsLikeReference name →
      r'.resolve name = .ok f ∧
      ∀ limit args, (∀ a ∈ args, Argument a) → (Node.nestingAll args : Int) < limit →
        parseWithin limit (written name args) = .ok (.sequence [.call name args]) := by
  rw [Registry.register_text, ← isMethodName_iff]
  refine ⟨⟨?_, fun h => ?_⟩, fun r' hr hname => ⟨Registry.resolve_register hr, ?_⟩⟩
  · rintro ⟨limit, pattern, tree, h, hname⟩
    exact calls_of_parse h hname
  · have hnone : ∀ a ∈ ([] : List Node), Argument a := by simp
    refine ⟨1, written name [], _, parse_written h hnone (by decide), ?_⟩
    simp [Node.calls, Node.callsAll]
  · intro limit args hargs hdepth
    have hregistered := (Registry.register_text r name f).mp ⟨r', hr⟩
    exact parse_written (isMethodName_iff.mpr ⟨hregistered, hname⟩) hargs hdepth

open Pattern in
/-- The dollar sign starts a name too, and the argument is the text that looks like no reference. -/
theorem callable_iff_registrable_dollar :
    let r : Registry Nat := .empty
    ∃ r', r.register (.text "$_1") (.function 0) = .ok r' ∧ ¬ StartsLikeReference "$_1" ∧
      r'.resolve "$_1" = .ok 0 ∧ written "$_1" [.literal "_x"] = "[$_1,_x]" ∧
      parseWithin 1 "[$_1,_x]" = .ok (.sequence [.call "$_1" [.literal "_x"]]) ∧
      ¬ ∃ limit pattern tree, parseWithin limit pattern = .ok tree ∧ "_1" ∈ tree.calls := by
  intro r
  obtain ⟨r', hr⟩ := (Registry.register_text r "$_1" 0).mpr (by decide)
  have hdollar : ¬ StartsLikeReference "$_1" := by
    rintro ⟨c, s, hcs, -⟩
    exact absurd (List.cons.inj hcs).1 (by decide)
  have hargs : ∀ a ∈ [Node.literal "_x"], Argument a := by
    refine List.forall_mem_singleton.mpr (.text (by decide) fun k i h => ?_)
    have hnone : referenceIndex? "_x".toList = none := by decide
    rw [h.index] at hnone
    cases hnone
  have htext : written "$_1" [.literal "_x"] = "[$_1,_x]" := by decide +kernel
  obtain ⟨hresolve, hparse⟩ := (callable_iff_registrable r 0 "$_1").2 r' hr hdollar
  have hread := hparse 1 _ hargs (by decide)
  rw [htext] at hread
  refine ⟨r', hr, hdollar, hresolve, htext, hread, fun h => ?_⟩
  exact ((callable_iff_registrable r 0 "_1").1.mp h).2 ⟨'1', [], by decide, by decide⟩

end Phrasebook
