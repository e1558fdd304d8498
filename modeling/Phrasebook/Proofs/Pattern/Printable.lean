import Mathlib.Algebra.Group.Nat.Defs
import Phrasebook.Proofs.Pattern.Parsing

/-!
Trees that can be written as patterns, and how deep their directives nest. Every tree that is read
is one of them, by induction on its derivation: the room of a phrase bounds the nesting of its
nodes. An argument of several parts becomes a sequence without brackets of its own, so a level of
brackets counts twice.
-/

namespace Phrasebook.Pattern

variable {stop : Char → Bool} {final : Bool} {room n k : Nat} {i : Int} {ds w t : List Char}
  {node : Node} {nodes : List Node}

namespace Node

def isDirective (node : Node) : Bool := node.isCall || node.isSequence

mutual

def nesting : Node → Nat
  | literal _ => 0
  | reference _ => 0
  | call _ args => nestingAll args + 1
  | sequence items => nestingAll items + 1

def nestingAll : List Node → Nat
  | [] => 0
  | node :: nodes => max (nesting node) (nestingAll nodes)

end

theorem nestingAll_le : nestingAll nodes ≤ k ↔ ∀ node ∈ nodes, node.nesting ≤ k := by
  induction nodes with
  | nil => simp [nestingAll]
  | cons node nodes ih => rw [nestingAll, Nat.max_le, ih, List.forall_mem_cons]

end Node

/-- A name that is not read as a reference with something behind it. -/
def IsMethodName (w : List Char) : Prop :=
  isName w = true ∧ ∀ c s, w = '_' :: c :: s → c.isDigit = false

/-- Nodes that can be written as one argument. Text that looks like a reference would be read as
one, and a reference has only so many digits. -/
inductive Argument : Node → Prop
  | text {text : String} (hs : text.toList ≠ ['_', '*'])
      (hr : ∀ k i, ¬ Reference text.toList k i) : Argument (.literal text)
  | reference {i : Int} (hi : (Text.digits i.natAbs).length ≤ maxReferenceDigits) :
      Argument (.reference i)
  | call {name : String} {args : List Node} (hn : IsMethodName name.toList)
      (ha : ∀ a ∈ args, Argument a) : Argument (.call name args)
  | list {args : List Node} (hne : args ≠ []) (ha : ∀ a ∈ args, Argument a) :
      Argument (.sequence args)

/-- Nodes that can be written outside directives. -/
inductive Item : Node → Prop
  | text {text : String} (h : text ≠ "") : Item (.literal text)
  | directive {node : Node} (h : Argument node) (hd : node.isDirective = true) : Item node

/-- The items of a tree that can be written. -/
def Printable (items : List Node) : Prop := ∀ node ∈ items, Item node

theorem Numeral.lt (h : Numeral ds n) : n < 10 ^ ds.length := by
  have hdigit : ∀ {c : Char}, c.isDigit = true → Text.asciiDigitValue c < 10 := by
    intro c hc
    simp only [Char.isDigit, Bool.and_eq_true, decide_eq_true_eq] at hc
    have hle : c.toNat ≤ '9'.toNat := hc.2
    have hnine : '9'.toNat = 57 := by decide
    have hzero : '0'.toNat = 48 := by decide
    unfold Text.asciiDigitValue
    omega
  induction h with
  | digit hc => simpa using hdigit hc
  | @snoc ds n c _ hc ih =>
    have := hdigit hc
    rw [List.length_append, List.length_singleton, Nat.pow_succ]
    omega

theorem Numeral.length_digits (h : Numeral ds n) : (Text.digits n).length ≤ ds.length :=
  (Nat.length_toDigits_le_iff (by decide) (List.length_pos_iff.2 h.digits.1)).2 h.lt

theorem Reference.length_digits (h : Reference w k i) :
    (Text.digits i.natAbs).length ≤ k := by
  cases h with
  | plain h => simpa using h.length_digits
  | negative h => simpa using h.length_digits

theorem Spells.eq_of_unescapable (h : Spells stop final w t)
    (ht : ∀ c ∈ t, isEscapable c = false) : w = t := by
  induction h with
  | nil => rfl
  | escape hc _ _ =>
    rw [ht _ List.mem_cons_self] at hc
    cases hc
  | tilde _ _ _ => exact absurd (ht '~' List.mem_cons_self) (by decide)
  | plain _ _ _ ih => rw [ih fun c hc => ht c (List.mem_cons_of_mem _ hc)]
  | last => rfl

theorem Spells.ne_nil (h : Spells stop final w t) (hw : w ≠ []) : t ≠ [] := by
  cases h with
  | nil => exact absurd rfl hw
  | escape => exact List.cons_ne_nil _ _
  | tilde => exact List.cons_ne_nil _ _
  | plain => exact List.cons_ne_nil _ _
  | last => exact List.cons_ne_nil _ _

theorem Chunk.item (h : Chunk .outside final w node) : Item node ∧ node.nesting = 0 := by
  cases h with
  | plain hw h =>
    refine ⟨.text fun ht => h.ne_nil hw ?_, by rw [Node.nesting]⟩
    simpa using congrArg String.toList ht

theorem Chunk.is_argument (h : Chunk .argument final w node) :
    Argument node ∧ node.nesting = 0 := by
  cases h with
  | reference h hk => exact ⟨.reference (Nat.le_trans h.length_digits hk), by rw [Node.nesting]⟩
  | @text _ w t hw h hr hs =>
    refine ⟨.text ?_ fun k i href => ?_, by rw [Node.nesting]⟩
    · rw [String.toList_ofList]
      rintro rfl
      exact hs (h.eq_of_unescapable unescapable_unsupported)
    · rw [String.toList_ofList] at href
      have hself := h.eq_of_unescapable href.unescapable
      exact hr k i (hself ▸ href)

theorem Token.name_of_named {name : String} (h : Token w (.named name)) :
    IsMethodName name.toList := by
  cases h with
  | choice => exact ⟨by decide, fun c s h => absurd (List.cons.inj h).1 (by decide)⟩
  | number => exact ⟨by decide, fun c s h => absurd (List.cons.inj h).1 (by decide)⟩
  | name hn hr =>
    rw [String.toList_ofList]
    refine ⟨hn, fun c s hw => ?_⟩
    by_cases hc : c.isDigit = true
    · exact absurd (.plain (.digit hc)) (hr ['_', c] s _ _ hw)
    · simpa using hc

theorem Token.seed_arguments {seed : List Node} (h : Token w (.list seed)) :
    ∀ a ∈ seed, Argument a ∧ a.nesting = 0 := by
  cases h with
  | empty => exact fun a ha => nomatch ha
  | reference h hk =>
    intro a ha
    rw [List.mem_singleton.1 ha]
    exact ⟨.reference (Nat.le_trans h.length_digits hk), by rw [Node.nesting]⟩

/-- What the nodes of a phrase are when directives have that much room in it. Without room, an
argument has one part at most. -/
def Shape : Form → Nat → List Node → Prop
  | .run .outside _, room, nodes => ∀ node ∈ nodes, Item node ∧ node.nesting ≤ 2 * room - 1
  | .run .argument b, room, nodes =>
    (∀ node ∈ nodes, Argument node ∧ node.nesting ≤ 2 * room - 1) ∧
      (room = 0 → nodes.length ≤ 1 ∧ (b = true → nodes = []))
  | .directive, room, nodes =>
    0 < room ∧ ∀ node ∈ nodes,
      Argument node ∧ node.isDirective = true ∧ node.nesting ≤ 2 * room - 1
  | .arguments, room, nodes => ∀ node ∈ nodes, Argument node ∧ node.nesting ≤ 2 * room

theorem shape_chunk {place : Place} (hw : Chunk place final w node)
    (hv : Shape (.run place true) room nodes) :
    Shape (.run place false) room (node :: nodes) := by
  cases place with
  | outside =>
    obtain ⟨hi, hn⟩ := hw.item
    exact List.forall_mem_cons.2 ⟨⟨hi, by omega⟩, hv⟩
  | argument =>
    obtain ⟨ha, hn⟩ := hw.is_argument
    obtain ⟨hv, hroom⟩ := hv
    refine ⟨List.forall_mem_cons.2 ⟨⟨ha, by omega⟩, hv⟩, fun h => ⟨?_, fun hb => nomatch hb⟩⟩
    rw [(hroom h).2 rfl]
    exact Nat.le_refl 1

theorem shape_nested {place : Place} {b : Bool} {found : List Node}
    (hw : Shape .directive room found) (hv : Shape (.run place false) room nodes) :
    Shape (.run place b) room (found ++ nodes) := by
  obtain ⟨hroom, hw⟩ := hw
  cases place with
  | outside =>
    refine List.forall_mem_append.2 ⟨fun node hnode => ?_, hv⟩
    obtain ⟨ha, hd, hn⟩ := hw node hnode
    exact ⟨.directive ha hd, hn⟩
  | argument =>
    refine ⟨List.forall_mem_append.2 ⟨fun node hnode => ?_, hv.1⟩, fun h => by omega⟩
    obtain ⟨ha, -, hn⟩ := hw node hnode
    exact ⟨ha, hn⟩

theorem shape_collapse {parts : List Node} (h : Shape (.run .argument false) room parts) :
    Argument (collapse parts) ∧ (collapse parts).nesting ≤ 2 * room := by
  obtain ⟨hall, hroom⟩ := h
  match parts with
  | [] =>
    rw [collapse, Node.nesting]
    exact ⟨.text (by decide) fun k i hr => hr.ne_nil rfl, Nat.zero_le _⟩
  | [part] =>
    obtain ⟨ha, hn⟩ := hall part List.mem_cons_self
    exact ⟨ha, by rw [collapse]; omega⟩
  | part :: part' :: parts =>
    have hpos : room ≠ 0 := by
      intro h
      have := (hroom h).1
      simp at this
    have hn := Node.nestingAll_le.2 fun node hnode => (hall node hnode).2
    rw [collapse, Node.nesting]
    · exact ⟨.list (by simp) fun a ha => (hall a ha).1, by omega⟩
    · simp
    · simp

theorem Derives.shape {f : Form} (h : Derives f room w nodes) : Shape f room nodes := by
  induction h with
  | @done place b =>
    cases place with
    | outside => exact fun _ h => nomatch h
    | argument => exact ⟨fun _ h => (nomatch h), fun _ => ⟨Nat.zero_le 1, fun _ => rfl⟩⟩
  | chunk hw _ ih => exact shape_chunk hw ih
  | nested _ _ ihw ihv => exact shape_nested ihw ihv
  | none => exact fun _ h => nomatch h
  | argument _ _ ihw ihv => exact List.forall_mem_cons.2 ⟨shape_collapse ihw, ihv⟩
  | nothing => exact ⟨Nat.succ_pos _, fun _ h => nomatch h⟩
  | @list room w v seed args hw _ hne ih =>
    have hall : ∀ a ∈ seed ++ args, Argument a ∧ a.nesting ≤ 2 * room := by
      refine List.forall_mem_append.2 ⟨fun a ha => ?_, ih⟩
      obtain ⟨harg, hn⟩ := hw.seed_arguments a ha
      exact ⟨harg, by omega⟩
    have hn := Node.nestingAll_le.2 fun a ha => (hall a ha).2
    refine ⟨Nat.succ_pos _, List.forall_mem_singleton.2 ⟨?_, rfl, ?_⟩⟩
    · exact .list hne fun a ha => (hall a ha).1
    · rw [Node.nesting]
      omega
  | @call room w v name args hw _ ih =>
    have hn := Node.nestingAll_le.2 fun a ha => (ih a ha).2
    refine ⟨Nat.succ_pos _, List.forall_mem_singleton.2 ⟨?_, rfl, ?_⟩⟩
    · exact .call hw.name_of_named fun a ha => (ih a ha).1
    · rw [Node.nesting]
      omega

end Phrasebook.Pattern
