import Phrasebook.Proofs.Pattern.Exact
import Phrasebook.Proofs.Pattern.Printable

/-!
Writing trees as patterns. What is written is derived by the grammar, by induction on the tree, so
reading gives the tree back. Between two texts outside directives stands `[]`, which has no node;
without it they would be one text.
-/

namespace Phrasebook.Pattern

variable {stop : Char → Bool} {final : Bool} {room k : Nat} {i : Int} {s t : List Char}
  {node : Node} {items : List Node}

def indexDigits : Int → List Char
  | .ofNat n => Text.digits n
  | .negSucc n => '-' :: Text.digits (n + 1)

namespace Node

mutual

def written : Node → List Char
  | literal text => encode text.toList
  | reference i => '_' :: indexDigits i
  | call name args => '[' :: (name.toList ++ writtenArgs args ++ [']'])
  | sequence args => '[' :: (writtenArgs args ++ [']'])

def writtenArgs : List Node → List Char
  | [] => []
  | arg :: args => ',' :: (written arg ++ writtenArgs args)

end

/-- What keeps text from running into the items that follow it. -/
def separator : List Node → List Char
  | literal _ :: _ => ['[', ']']
  | _ => []

def writtenItems : List Node → List Char
  | [] => []
  | item :: items =>
    written item ++ (if item.isLiteral then separator items else []) ++ writtenItems items

end Node

def print (items : List Node) : String := String.ofList (Node.writtenItems items)

theorem spells_encode (hs : Escapes stop) (t : List Char) : Spells stop final (encode t) t := by
  induction t with
  | nil => exact .nil
  | cons c t ih =>
    rw [encode_cons]
    split
    · rename_i hc
      exact .escape hc ih
    · rename_i hc
      obtain ⟨ht, hstop⟩ := hs.plain (Bool.eq_false_iff.2 hc)
      exact .plain ht hstop ih

theorem encode_ne_nil (h : t ≠ []) : encode t ≠ [] := by
  intro he
  exact h (by rw [← decode_encode t, he, decode])

theorem encode_eq_self (h : ∀ c ∈ encode t, isEscapable c = false) : encode t = t := by
  have hs : Spells opensDirective true (encode t) (encode t) :=
    spells_self escapes_opensDirective h
  rw [← hs.decode_eq, decode_encode]

theorem numeral_digits (n : Nat) : Numeral (Text.digits n) n := by
  have hvalue : Text.ofDigits (Text.digits n) = n :=
    Nat.ofDigitChars_toDigits (by decide) (by decide)
  have hdigits : ∀ c ∈ Text.digits n, c.isDigit = true := fun c hc =>
    Nat.isDigit_of_mem_toDigits (by decide) (by decide) hc
  have hne : Text.digits n ≠ [] := Nat.toDigits_ne_nil
  have h := numeral_ofDigits hne hdigits
  rwa [hvalue] at h

theorem reference_indexDigits (i : Int) :
    Reference ('_' :: indexDigits i) (Text.digits i.natAbs).length i := by
  cases i with
  | ofNat n => exact .plain (numeral_digits n)
  | negSucc n => exact .negative (numeral_digits (n + 1))

theorem chunk_encode_outside (ht : t ≠ []) :
    Chunk .outside final (encode t) (.literal (String.ofList t)) :=
  .plain (encode_ne_nil ht) (spells_encode escapes_opensDirective t)

theorem chunk_encode (ht : t ≠ []) (hs : t ≠ ['_', '*']) (hr : ∀ k i, ¬ Reference t k i) :
    Chunk .argument final (encode t) (.literal (String.ofList t)) := by
  refine .text (encode_ne_nil ht) (spells_encode escapes_endsArgument t) (fun k i h => ?_) ?_
  · exact hr k i (encode_eq_self h.unescapable ▸ h)
  · intro he
    refine hs (he ▸ (encode_eq_self ?_).symm)
    rw [he]
    exact unescapable_unsupported

theorem IsMethodName.token {w : List Char} (h : IsMethodName w) :
    Token w (.named (String.ofList w)) := by
  obtain ⟨hn, hd⟩ := h
  refine .name hn ?_
  rintro p q k i rfl hp
  cases hp with
  | @plain ds n hnum =>
    obtain ⟨hne, hall, -⟩ := hnum.digits
    cases ds with
    | nil => exact hne rfl
    | cons c ds =>
      have := hd c (ds ++ q) rfl
      rw [hall c List.mem_cons_self] at this
      cases this
  | negative =>
    -- a name has no sign in it
    simp only [List.cons_append, isName, Bool.and_eq_true, List.all_cons] at hn
    exact absurd hn.2.1 (by decide)

/-- A node is written as the one part of an argument, or as no part if it is the empty text. -/
def WrittenAs (room : Nat) (node : Node) : Prop :=
  ∃ parts, collapse parts = node ∧ Derives (.run .argument false) room node.written parts

theorem derives_args {args : List Node} (h : ∀ a ∈ args, WrittenAs room a) :
    Derives .arguments room (Node.writtenArgs args) args := by
  induction args with
  | nil =>
    rw [Node.writtenArgs]
    exact .none
  | cons arg args ih =>
    obtain ⟨⟨parts, hparts, harg⟩, hargs⟩ := List.forall_mem_cons.1 h
    have := Derives.argument harg (ih hargs)
    rw [Node.writtenArgs]
    rwa [hparts] at this

theorem derives_alone {found : List Node} (h : Derives .directive room s found) :
    Derives (.run .argument false) room s found := by
  have : Derives (.run .argument false) room (s ++ []) (found ++ []) := .nested h .done
  simpa using this

theorem derives_list {args : List Node} (hne : args ≠ [])
    (h : Derives .arguments room (Node.writtenArgs args) args) :
    Derives .directive (room + 1) (Node.sequence args).written [.sequence args] := by
  rw [Node.written]
  exact .list .empty h hne

theorem derives_call {name : String} {args : List Node} (hn : IsMethodName name.toList)
    (h : Derives .arguments room (Node.writtenArgs args) args) :
    Derives .directive (room + 1) (Node.call name args).written [.call name args] := by
  have htoken := hn.token
  rw [String.ofList_toList] at htoken
  rw [Node.written]
  exact .call htoken h

/-- What is shown of a node with enough room: it is written as an argument, and a directive also
as such. -/
def Written (room : Nat) (node : Node) : Prop :=
  WrittenAs room node ∧
    (node.isDirective = true → Derives .directive room node.written [node])

theorem written_directive (h : Derives .directive room node.written [node]) :
    Written room node :=
  ⟨⟨[node], rfl, derives_alone h⟩, fun _ => h⟩

theorem written_chunk (hd : node.isDirective = false) (h : Chunk .argument true node.written node) :
    Written room node := by
  have hrun : Derives (.run .argument false) room (node.written ++ []) [node] := .chunk h .done
  rw [List.append_nil] at hrun
  refine ⟨⟨[node], rfl, hrun⟩, fun h => ?_⟩
  rw [hd] at h
  cases h

theorem derives_args_within {args : List Node} (hroom : Node.nestingAll args + 1 ≤ room)
    (h : ∀ a ∈ args, ∀ room, a.nesting ≤ room → Written room a) :
    ∃ inner, room = inner + 1 ∧ Derives .arguments inner (Node.writtenArgs args) args := by
  obtain ⟨inner, rfl⟩ := Nat.exists_eq_add_of_le' (Nat.le_trans (Nat.le_add_left 1 _) hroom)
  have hargs := Node.nestingAll_le.1 (Nat.le_of_succ_le_succ hroom)
  exact ⟨inner, rfl, derives_args fun a ha => (h a ha inner (hargs a ha)).1⟩

theorem Argument.is_written (h : Argument node) :
    ∀ room, node.nesting ≤ room → Written room node := by
  induction h with
  | @text text hs hr =>
    intro room _
    by_cases ht : text = ""
    · subst ht
      have hempty : Derives (.run .argument false) room (Node.literal "").written [] := by
        rw [Node.written]
        exact .done
      exact ⟨⟨[], rfl, hempty⟩, fun hd => nomatch hd⟩
    · refine written_chunk rfl ?_
      have hchunk : Chunk .argument true (encode text.toList)
          (.literal (String.ofList text.toList)) :=
        chunk_encode (fun h => ht (String.toList_inj.1 h)) hs hr
      rwa [String.ofList_toList, ← Node.written] at hchunk
  | @reference i hi =>
    intro room _
    refine written_chunk rfl ?_
    rw [Node.written]
    exact .reference (reference_indexDigits i) hi
  | call hn _ ih =>
    intro room hroom
    rw [Node.nesting] at hroom
    obtain ⟨inner, rfl, hargs⟩ := derives_args_within hroom ih
    exact written_directive (derives_call hn hargs)
  | list hne _ ih =>
    intro room hroom
    rw [Node.nesting] at hroom
    obtain ⟨inner, rfl, hargs⟩ := derives_args_within hroom ih
    exact written_directive (derives_list hne hargs)

/-- The items of a printable tree are derived where no text stands before them and, with what
separates them from it, behind text. -/
theorem derives_items (hp : Printable items) (hpos : 1 ≤ room)
    (hroom : Node.nestingAll items ≤ room) :
    Derives (.run .outside false) room (Node.writtenItems items) items ∧
      Derives (.run .outside true) room (Node.separator items ++ Node.writtenItems items)
        items := by
  induction items with
  | nil => exact ⟨.done, .done⟩
  | cons item items ih =>
    obtain ⟨hitem, hitems⟩ := List.forall_mem_cons.1 hp
    rw [Node.nestingAll, Nat.max_le] at hroom
    obtain ⟨hrest, hbehind⟩ := ih hitems hroom.2
    cases hitem with
    | @text text ht =>
      have hrun : Derives (.run .outside false) room (Node.writtenItems (.literal text :: items))
          (.literal text :: items) := by
        have htext : text.toList ≠ [] := fun h => ht (String.toList_inj.1 h)
        have hfirst := Derives.chunk (chunk_encode_outside htext) hbehind
        rw [String.ofList_toList] at hfirst
        rw [Node.writtenItems, Node.written, List.append_assoc]
        exact hfirst
      obtain ⟨inner, rfl⟩ := Nat.exists_eq_add_of_le' hpos
      exact ⟨hrun, .nested .nothing hrun⟩
    | directive harg hd =>
      have hdir := (harg.is_written room hroom.1).2 hd
      have hl : item.isLiteral = false := by cases item <;> first | rfl | cases hd
      have hwritten :
          Node.writtenItems (item :: items) = item.written ++ Node.writtenItems items := by
        simp [Node.writtenItems, hl]
      have hsep : Node.separator (item :: items) = [] := by cases item <;> first | rfl | cases hl
      rw [hsep, List.nil_append, hwritten]
      exact ⟨.nested hdir hrest, .nested hdir hrest⟩

/-- Printing and parsing are inverse to each other between the trees that can be written and the
patterns that can be read: every tree that is read can be written, with directives that nest at
most twice as deep as the limit allows, and whatever is written for a tree is read as that tree
wherever its directives may nest as deep as they do. -/
theorem printing_inverts_parsing (limit : Int) :
    (∀ pattern tree, parseWithin limit pattern = .ok tree →
      ∃ items, tree = .sequence items ∧ Printable items ∧
        (0 ≤ limit → (Node.nestingAll items : Int) ≤ 2 * limit)) ∧
    (∀ items, Printable items → 1 ≤ limit → (Node.nestingAll items : Int) ≤ limit →
      parseWithin limit (print items) = .ok (.sequence items)) := by
  refine ⟨fun pattern tree h => ?_, fun items hp hpos hdepth => ?_⟩
  · unfold parseWithin at h
    cases hi : items (directive limit limit.toNat) pattern.toList with
    | error stop =>
      rw [hi] at h
      cases h
    | ok nodes =>
      rw [hi] at h
      cases h
      have hshape : Shape (.run .outside false) limit.toNat nodes :=
        (items_sound (directive_sound limit limit.toNat) hi).shape
      have hdeep := Node.nestingAll_le.2 fun node hnode => (hshape node hnode).2
      exact ⟨nodes, rfl, fun node hnode => (hshape node hnode).1, fun hl => by omega⟩
  · have hroom : Node.nestingAll items ≤ limit.toNat := by omega
    have hread := items_complete limit (derives_items hp (by omega) hroom).1
    unfold parseWithin print
    rw [String.toList_ofList, hread]

/-- Two texts side by side, and a call with a sequence that starts with no text. -/
def sampleItems : List Node :=
  [.literal "a", .literal "b[",
    .call "quant" [.reference (-1), .sequence [.literal "", .reference 10]]]

theorem printable_sampleItems : Printable sampleItems := by
  have hlist : Argument (.sequence [.literal "", .reference 10]) := by
    refine .list (by simp) (List.forall_mem_cons.2 ⟨?_, List.forall_mem_singleton.2 ?_⟩)
    · exact .text (by decide) fun k i h => h.ne_nil rfl
    · exact .reference (by decide)
  have hname : IsMethodName "quant".toList :=
    ⟨by decide, fun c s h => absurd (List.cons.inj h).1 (by decide)⟩
  have hlast : Argument (.reference (-1)) := .reference (by decide)
  have hcall := Argument.call hname
    (List.forall_mem_cons.2 ⟨hlast, List.forall_mem_singleton.2 hlist⟩)
  refine List.forall_mem_cons.2 ⟨.text (by decide), List.forall_mem_cons.2 ⟨.text (by decide), ?_⟩⟩
  exact List.forall_mem_singleton.2 (.directive hcall rfl)

theorem printing_inverts_parsing_sample :
    print sampleItems = "a[]b~[[quant,_-1,[,,_10]]" ∧ Printable sampleItems ∧
    (1 : Int) ≤ 2 ∧ (Node.nestingAll sampleItems : Int) ≤ 2 ∧
    parseWithin 2 "a[]b~[[quant,_-1,[,,_10]]" = .ok (.sequence sampleItems) ∧
    ∃ items, Node.sequence sampleItems = .sequence items ∧ Printable items ∧
      (0 ≤ (2 : Int) → (Node.nestingAll items : Int) ≤ 2 * 2) := by
  have htext : print sampleItems = "a[]b~[[quant,_-1,[,,_10]]" := by decide +kernel
  have hdepth : (Node.nestingAll sampleItems : Int) ≤ 2 := by decide
  have hread := (printing_inverts_parsing 2).2 sampleItems printable_sampleItems (by decide) hdepth
  rw [htext] at hread
  exact ⟨htext, printable_sampleItems, by decide, hdepth, hread,
    (printing_inverts_parsing 2).1 _ _ hread⟩

end Phrasebook.Pattern
