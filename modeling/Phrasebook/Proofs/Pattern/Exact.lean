import Phrasebook.Proofs.Pattern.Parsing

/-!
Patterns are read exactly as the grammar derives them, and in one way only. The closing bracket
of a directive is the one that counting brackets finds, so no directive ends early and none takes
characters that stand behind it.
-/

namespace Phrasebook.Pattern

variable {room : Nat} {c : Char} {w t : List Char} {nodes : List Node}

theorem afterMatch_plain (ht : c ≠ '~') (ho : c ≠ '[') (hc : c ≠ ']') (depth : Nat)
    (s : List Char) : afterMatch (depth + 1) (c :: s) = afterMatch (depth + 1) s := by
  rw [afterMatch]
  · rintro d ds rfl
    exact absurd rfl ht
  · exact ho
  · exact hc

def Neutral (w : List Char) : Prop :=
  ∀ depth rest, afterMatch (depth + 1) (w ++ rest) = afterMatch (depth + 1) rest

theorem neutral_nil : Neutral [] := fun _ _ => rfl

theorem Neutral.append {v : List Char} (hw : Neutral w) (hv : Neutral v) : Neutral (w ++ v) := by
  intro depth rest
  rw [List.append_assoc, hw, hv]

theorem Neutral.comma (hw : Neutral w) : Neutral (',' :: w) := by
  intro depth rest
  rw [List.cons_append, afterMatch_plain (by decide) (by decide) (by decide), hw]

theorem neutral_text {final : Bool} (hf : final = false) (h : Spells endsArgument final w t) :
    Neutral w := by
  induction h with
  | nil => exact neutral_nil
  | escape hc _ ih =>
    intro depth rest
    rw [List.cons_append, List.cons_append, afterMatch, if_pos hc, ih hf]
  | tilde hc _ ih =>
    intro depth rest
    have := ih hf depth rest
    rw [List.cons_append] at this
    rw [List.cons_append, List.cons_append, afterMatch, if_neg (by simp [hc]), this]
  | @plain _ c _ _ ht hc _ ih =>
    intro depth rest
    have ho : c ≠ '[' := by
      rintro rfl
      exact absurd hc (by decide)
    have hc' : c ≠ ']' := by
      rintro rfl
      exact absurd hc (by decide)
    rw [List.cons_append, afterMatch_plain ht ho hc', ih hf]
  | last => cases hf

theorem Token.neutral {m : Method} (h : Token w m) : Neutral w :=
  neutral_text rfl (spells_self escapes_endsArgument h.unescapable)

/-- Phrases inside a directive keep the count of open brackets. Text outside has no such duty. -/
def Matched : Form → List Char → Prop
  | .run .outside _, _ => True
  | .run .argument _, w => Neutral w
  | .directive, w =>
    ∃ s, w = '[' :: s ∧ ∀ depth rest, afterMatch (depth + 1) (s ++ rest) = afterMatch depth rest
  | .arguments, w => Neutral w

theorem Matched.neutral (h : Matched .directive w) : Neutral w := by
  obtain ⟨s, rfl, hs⟩ := h
  intro depth rest
  rw [List.cons_append, afterMatch, hs]

theorem matched_directive {m : Method} {v : List Char} (hw : Token w m)
    (hv : Matched .arguments v) : Matched .directive ('[' :: (w ++ v ++ [']'])) := by
  refine ⟨_, rfl, fun depth rest => ?_⟩
  have hwv := hw.neutral.append hv
  rw [List.append_assoc (w ++ v), hwv, List.singleton_append, afterMatch]

theorem Derives.matched {f : Form} (h : Derives f room w nodes) : Matched f w := by
  induction h with
  | @done place =>
    cases place with
    | outside => trivial
    | argument => exact neutral_nil
  | @chunk place _ _ _ _ _ hw _ ihv =>
    cases place with
    | outside => trivial
    | argument =>
      obtain ⟨t, ht⟩ := hw.spells
      exact (neutral_text rfl ht).append ihv
  | @nested place _ _ _ _ _ _ _ _ ihw ihv =>
    cases place with
    | outside => trivial
    | argument => exact ihw.neutral.append ihv
  | none => exact neutral_nil
  | argument _ _ ihw ihv => exact (ihw.append ihv).comma
  | nothing => exact matched_directive .empty neutral_nil
  | list hw _ _ ih => exact matched_directive hw ih
  | call hw _ ih => exact matched_directive hw ih

theorem items_complete (limit : Int) (h : Derives (.run .outside false) room w nodes) :
    items (directive limit room) w = .ok nodes :=
  h.reads limit [] [] plain_nil fun _ => ⟨rfl, rfl⟩

theorem directive_complete {s rest : List Char} {node : Option Node} (limit : Int)
    (hw : '[' :: s = w ++ rest) (h : Derives .directive room w node.toList) :
    Yields (directive limit room) s node rest := by
  obtain ⟨s', rfl, hs⟩ := h.reads limit
  obtain ⟨node', hnode, hread⟩ := hs rest
  obtain ⟨-, rfl⟩ := List.cons.inj hw
  have heq : node' = node := by
    cases node <;> cases node' <;> simp_all
  exact heq ▸ hread

theorem closes {s rest : List Char} (hw : '[' :: s = w ++ rest)
    (h : Derives .directive room w nodes) : afterMatch 1 s = some rest := by
  obtain ⟨s', rfl, hs⟩ := h.matched
  obtain ⟨-, rfl⟩ := List.cons.inj hw
  have := hs 0 rest
  rwa [afterMatch] at this

example : afterMatch 1 "*,_1,[_2,~]]]!".toList = some ['!'] := by decide

/-- `parseWithin` succeeds on exactly the patterns of the grammar, with the nodes that the grammar
gives them, and these are unique. A directive is read exactly where the grammar has one: it takes
the characters up to the closing bracket of its own, and no other characters. -/
theorem parses_grammar (limit : Int) (pattern : String) :
    (∀ tree, parseWithin limit pattern = .ok tree ↔
      ∃ nodes, tree = .sequence nodes ∧
        Derives (.run .outside false) limit.toNat pattern.toList nodes) ∧
    (∀ nodes nodes', Derives (.run .outside false) limit.toNat pattern.toList nodes →
      Derives (.run .outside false) limit.toNat pattern.toList nodes' → nodes = nodes') ∧
    (∀ room s node rest, Yields (directive limit room) s node rest ↔
      ∃ w, '[' :: s = w ++ rest ∧ Derives .directive room w node.toList ∧
        afterMatch 1 s = some rest) := by
  refine ⟨fun tree => ⟨fun h => ?_, ?_⟩, fun nodes nodes' h h' => ?_, fun room s node rest =>
    ⟨fun h => ?_, ?_⟩⟩
  · unfold parseWithin at h
    cases hi : items (directive limit limit.toNat) pattern.toList with
    | error stop =>
      rw [hi] at h
      cases h
    | ok nodes =>
      rw [hi] at h
      cases h
      exact ⟨nodes, rfl, items_sound (directive_sound limit limit.toNat) hi⟩
  · rintro ⟨nodes, rfl, h⟩
    unfold parseWithin
    rw [items_complete limit h]
  · have hi := items_complete limit h
    rw [items_complete limit h'] at hi
    cases hi
    rfl
  · obtain ⟨w, hw, hd⟩ := directive_sound limit room s node rest h
    exact ⟨w, hw, hd, closes hw hd⟩
  · rintro ⟨w, hw, hd, -⟩
    exact directive_complete limit hw hd

end Phrasebook.Pattern
