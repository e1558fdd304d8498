import Phrasebook.Locale.Catalogue
import Phrasebook.Proofs.Formatter.Composition
import Phrasebook.Proofs.Text.Literal

/-!
# Patterns without directives

A pattern in which every opening bracket is escaped is one text. Its formatter writes that text
whatever it is called with, and its expression is a literal that reads back as the same text.
-/

namespace Phrasebook

namespace Pattern

variable {final : Bool} {stop : Char → Bool} {limit : Int} {pattern : String} {t w : List Char}

/-- No bracket opens a directive: before each one stands an odd number of tildes. -/
def Directiveless (pattern : String) : Prop :=
  ∀ u v, pattern.toList = u ++ '[' :: v → EndsOdd u

theorem not_getLast?_tail {a : Char} {u : List Char} (h : '~' ∉ (a :: u).getLast?) :
    '~' ∉ u.getLast? := by
  cases u with
  | nil => simp
  | cons b u => rwa [List.getLast?_cons_cons] at h

theorem Spells.even_end (h : Spells stop final w t) (hf : final = false) {u : List Char} {n : Nat}
    (hu : '~' ∉ u.getLast?) (hw : w = u ++ List.replicate n '~') : n % 2 = 0 := by
  induction h generalizing u n with
  | nil =>
    have := congrArg List.length hw
    simp only [List.length_append, List.length_replicate, List.length_nil] at this
    omega
  | escape _ _ ih =>
    rcases u with _ | ⟨a, _ | ⟨b, u⟩⟩
    · rcases n with _ | _ | n
      · cases hw
      · cases hw
      · obtain ⟨-, hw⟩ : _ ∧ _ := by simpa [List.replicate_succ] using hw
        have := ih (u := []) hf (by simp) hw
        omega
    · obtain ⟨rfl, -⟩ := List.cons.inj hw
      exact absurd rfl hu
    · obtain ⟨-, hw⟩ := List.cons.inj hw
      obtain ⟨-, hw⟩ := List.cons.inj hw
      exact ih hf (not_getLast?_tail (not_getLast?_tail hu)) hw
  | tilde hc _ ih =>
    rcases u with _ | ⟨a, u⟩
    · rcases n with _ | _ | n
      · cases hw
      · cases hw
      · obtain ⟨rfl, -⟩ : _ ∧ _ := by simpa [List.replicate_succ] using hw
        cases hc
    · exact ih hf (not_getLast?_tail hu) (List.cons.inj hw).2
  | plain ht _ _ ih =>
    rcases u with _ | ⟨a, u⟩
    · cases n with
      | zero => cases hw
      | succ n => exact absurd (List.cons.inj hw).1 ht
    · exact ih hf (not_getLast?_tail hu) (List.cons.inj hw).2
  | last => cases hf

theorem Directiveless.parse (h : Directiveless pattern) (limit : Int) :
    parseWithin limit pattern = .ok (.sequence (plainText pattern.toList)) := by
  unfold parseWithin
  rcases cutText_cases escapes_opensDirective pattern.toList with
    ⟨t, -, hcut⟩ | ⟨w, t, c, r, hw, hc, hs, -⟩
  · rw [items, hcut]
  · obtain rfl : c = '[' := by simpa [opensDirective] using hc
    obtain ⟨u, n, rfl, hodd, hu⟩ := h w r.1 hs
    have := hw.even_end rfl hu rfl
    omega

end Pattern

theorem Formatter.ofNode_plainText (r : Registry Extension) (pattern : String) (s : List Char) :
    ∃ f, Formatter.ofNode r pattern (.sequence (Pattern.plainText s)) = .ok f ∧
      f.source = Text.literal (String.ofList (Pattern.decode s)) ∧
      ∀ c args, f.run c args = .ok (String.ofList (Pattern.decode s)) := by
  by_cases hs : s = []
  · subst hs
    exact ⟨⟨pattern, _, .concat []⟩, rfl, rfl, fun c args => rfl⟩
  · rw [Pattern.plainText, if_neg hs]
    refine ⟨⟨pattern, _, .concat [.text (String.ofList (Pattern.decode s))]⟩, rfl, rfl,
      fun c args => ?_⟩
    simp only [run_concat, Program.join, Program.eval, Outcome.bind_eq, Outcome.pure_eq,
      Outcome.ok_andThen, Program.ofText_text, String.append_empty]

/-- Literals delimit themselves: reading one gives its text back and stops where it ends, whatever
follows, and nothing between its quote marks is a control character, a line separator or a quote
mark that is not escaped. So the expression of a pattern without directives reads back as the text
that its formatter writes. -/
theorem literals_read_back :
    (∀ t r, Text.readLiteral ((Text.literal t).toList ++ r) = some (t.toList, r)) ∧
    (∀ t, ∃ body, (Text.literal t).toList = '"' :: body ++ ['"'] ∧
      Text.hasBareQuote body = false ∧ ∀ c ∈ body, Text.Visible c) ∧
    (∀ limit r pattern, Pattern.Directiveless pattern → ∃ f s,
      Formatter.ofPatternWithin limit r pattern = .ok f ∧ (∀ c args, f.run c args = .ok s) ∧
      Text.readLiteral f.source.toList = some (s.toList, [])) := by
  refine ⟨Text.readLiteral_literal, Text.literal_body, fun limit r pattern h => ?_⟩
  obtain ⟨f, hf, hsource, hrun⟩ := Formatter.ofNode_plainText r pattern pattern.toList
  refine ⟨f, _, ?_, hrun, ?_⟩
  · rw [Formatter.ofPatternWithin, h.parse]
    exact hf
  · rw [hsource, ← List.append_nil (Text.literal _).toList, Text.readLiteral_literal]

/-- The bracket here is escaped, and the expression names the line feed. -/
theorem literals_read_back_escaped : Pattern.Directiveless "a~[\n" ∧ ∃ f s,
    Formatter.ofPatternWithin 100 (.builtins .catalogue) "a~[\n" = .ok f ∧
      (∀ c args, f.run c args = .ok s) ∧ Text.readLiteral f.source.toList = some (s.toList, []) := by
  have h : Pattern.Directiveless "a~[\n" := by
    intro u v hu
    have hlist : ['a', '~', '[', '\n'] = u ++ '[' :: v := hu
    have hsplit : u = ['a', '~'] := by
      rcases u with _ | ⟨a, _ | ⟨b, _ | ⟨c, _ | ⟨d, u⟩⟩⟩⟩ <;> simp_all [eq_comm]
    exact ⟨['a'], 1, hsplit, rfl, by decide⟩
  exact ⟨h, literals_read_back.2.2 100 (.builtins .catalogue) "a~[\n" h⟩

end Phrasebook
