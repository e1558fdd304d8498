import Phrasebook.Proofs.Pattern.Tokens

/-!
One step of each reader, forwards and backwards: what it returns when it stands before a given
token or text, and what it must have read when it succeeds. Nothing later unfolds a reader.
-/

namespace Phrasebook.Pattern

variable {α : Type} {limit : Int} {room : Nat} {nested : Reader} {s u v w t rest : List Char}
  {parts found args nodes : List Node} {node : Option Node} {m : Method}

def Yields (read : (s : List Char) → Except Stop (α × Rest s)) (s : List Char) (a : α)
    (rest : List Char) : Prop :=
  ∃ r : Rest s, read s = .ok (a, r) ∧ r.1 = rest

theorem cutMethod_stop {c : Char} {r : List Char} (h : scanMethod s = (w, c :: r)) :
    ∃ r' : Rest s, cutMethod s = (w, some (c, r')) ∧ r'.1 = r := by
  unfold cutMethod
  split <;> rename_i h' <;> rw [h] at h' <;> cases h'
  exact ⟨_, rfl, rfl⟩

theorem scanMethod_of_cut {c : Char} {r : Rest s} (h : cutMethod s = (w, some (c, r))) :
    scanMethod s = (w, c :: r.1) := by
  unfold cutMethod at h
  split at h <;> cases h
  assumption

/-- A run of argument text that has been read: its characters and its nodes. -/
structure Piece (u : List Char) (found : List Node) : Prop where
  spells : ∃ t, Spells endsArgument false u t
  nodes : ∀ left, argumentText u left = .ok found

theorem piece_nil : Piece [] [] := ⟨⟨[], .nil⟩, fun _ => rfl⟩

theorem Chunk.piece {final : Bool} {n : Node} (h : Chunk .argument final w n) : Piece w [n] :=
  ⟨h.spells, h.argumentText⟩

theorem Piece.cut (h : Piece u found) {c : Char} (hc : endsArgument c = true)
    (rest : List Char) : ∃ r : Rest (u ++ c :: rest),
      cutText endsArgument (u ++ c :: rest) = (u, some (c, r)) ∧ r.1 = rest := by
  obtain ⟨t, ht⟩ := h.spells
  exact ht.cut_stop escapes_endsArgument hc rest

/-- `Remaining nested v args rest`: behind a method or an argument, `v` closes the directive or goes
on with the arguments `args`, and leaves `rest`. -/
inductive Remaining (nested : Reader) : List Char → List Node → List Char → Prop
  | close {rest : List Char} : Remaining nested (']' :: rest) [] rest
  | next {v rest : List Char} {args : List Node} (h : Yields (arguments nested · []) v args rest) :
      Remaining nested (',' :: v) args rest

theorem Piece.ends (h : Piece u found) (parts : List Node) (hv : Remaining nested v args rest) :
    Yields (arguments nested · parts) (u ++ v) (collapse (parts ++ found) :: args) rest := by
  cases hv with
  | close =>
    obtain ⟨r, hcut, hr⟩ := h.cut (by decide : endsArgument ']' = true) rest
    refine ⟨r, ?_, hr⟩
    dsimp only
    rw [arguments, hcut]
    simp only [h.nodes, if_true]
  | @next v _ _ hv =>
    obtain ⟨r, hcut, hr⟩ := h.cut (by decide : endsArgument ',' = true) v
    rw [← hr] at hv
    obtain ⟨r', hargs, hr'⟩ := hv
    refine ⟨r.within r', ?_, hr'⟩
    dsimp only at hargs ⊢
    rw [arguments, hcut]
    simp only [h.nodes]
    rw [if_neg (by decide), if_pos trivial, hargs]

theorem Piece.enter (h : Piece u found) (hn : Yields nested v node w)
    (hw : Yields (arguments nested · (parts ++ found ++ node.toList)) w args rest) :
    Yields (arguments nested · parts) (u ++ '[' :: v) args rest := by
  obtain ⟨r, hcut, hr⟩ := h.cut (by decide : endsArgument '[' = true) v
  rw [← hr] at hn
  obtain ⟨r', hnode, rfl⟩ := hn
  obtain ⟨r'', hargs, hr''⟩ := hw
  refine ⟨(r.within r').within r'', ?_, hr''⟩
  dsimp only at hargs ⊢
  rw [arguments, hcut]
  simp only [h.nodes]
  rw [if_neg (by decide), if_neg (by decide), hnode]
  simp only [hargs]

/-- What happens behind the first text of an argument that has `parts` and the `found` nodes of
that text. -/
inductive ArgumentStep (nested : Reader) (parts found : List Node) :
    List Char → List Node → List Char → Prop
  | ends {v rest : List Char} {args : List Node} (h : Remaining nested v args rest) :
      ArgumentStep nested parts found v (collapse (parts ++ found) :: args) rest
  | enter {v w rest : List Char} {node : Option Node} {args : List Node}
      (hn : Yields nested v node w)
      (h : Yields (arguments nested · (parts ++ found ++ node.toList)) w args rest) :
      ArgumentStep nested parts found ('[' :: v) args rest

theorem arguments_step (h : Yields (arguments nested · parts) s args rest) :
    ∃ u t v found, s = u ++ v ∧ Spells endsArgument false u t ∧
      argumentText u s.length = .ok found ∧ ArgumentStep nested parts found v args rest := by
  obtain ⟨r, h, rfl⟩ := h
  dsimp only at h
  rw [arguments] at h
  rcases cutText_cases escapes_endsArgument s with
    ⟨t, -, hcut⟩ | ⟨u, t, c, r₁, ht, hc, hs, hcut⟩
  · rw [hcut] at h
    cases ha : argumentText s s.length <;> simp only [ha] at h <;> cases h
  · rw [hcut] at h
    cases ha : argumentText u s.length with
    | error stop =>
      simp only [ha] at h
      cases h
    | ok found =>
      refine ⟨u, t, c :: r₁.1, found, hs, ht, ha, ?_⟩
      simp only [ha] at h
      simp only [endsArgument, Bool.or_eq_true, decide_eq_true_eq] at hc
      rcases hc with (rfl | rfl) | rfl
      · rw [if_neg (by decide), if_neg (by decide)] at h
        split at h
        · cases h
        · rename_i node r' hn
          split at h
          · cases h
          · rename_i args' r'' hargs
            cases h
            exact .enter ⟨r', hn, rfl⟩ ⟨r'', hargs, rfl⟩
      · rw [if_pos rfl] at h
        cases h
        exact .ends .close
      · rw [if_neg (by decide), if_pos rfl] at h
        split at h
        · cases h
        · rename_i args' r' hargs
          cases h
          exact .ends (.next ⟨r', hargs, rfl⟩)

theorem Token.ends (ht : Token w m) (hv : Remaining (directive limit room) v args rest) :
    Yields (directive limit (room + 1)) (w ++ v) (m.node args) rest := by
  cases hv with
  | close =>
    obtain ⟨r, hcut, hr⟩ := cutMethod_stop (ht.scan (.inr rfl) rest)
    refine ⟨r, ?_, hr⟩
    rw [directive, hcut]
    simp only [ht.method]
    rw [if_pos (.inr trivial), if_pos trivial]
  | @next v _ _ hv =>
    obtain ⟨r, hcut, hr⟩ := cutMethod_stop (ht.scan (.inl rfl) v)
    rw [← hr] at hv
    obtain ⟨r', hargs, hr'⟩ := hv
    refine ⟨r.within r', ?_, hr'⟩
    dsimp only at hargs
    rw [directive, hcut]
    simp only [ht.method]
    rw [if_pos (.inl trivial), if_neg (by decide), hargs]

theorem directive_step (h : Yields (directive limit (room + 1)) s node rest) :
    ∃ w v m args, s = w ++ v ∧ Token w m ∧ node = m.node args ∧
      Remaining (directive limit room) v args rest := by
  obtain ⟨r, h, rfl⟩ := h
  rw [directive] at h
  rcases hcut : cutMethod s with ⟨w, _ | ⟨c, r₁⟩⟩ <;> simp only [hcut] at h
  · cases h
  · have hscan := scanMethod_of_cut hcut
    have happ := scanMethod_append s
    rw [hscan] at happ
    by_cases hc : c = ',' ∨ c = ']'
    · rw [if_pos hc] at h
      cases hm : method w s.length with
      | error stop =>
        simp only [hm] at h
        cases h
      | ok m =>
        have ht := token_of_method hscan hm
        simp only [hm] at h
        rcases hc with rfl | rfl
        · rw [if_neg (by decide)] at h
          split at h
          · cases h
          · rename_i args r' hargs
            cases h
            exact ⟨w, ',' :: r₁.1, m, args, happ.symm, ht, rfl, .next ⟨r', hargs, rfl⟩⟩
        · rw [if_pos rfl] at h
          cases h
          exact ⟨w, ']' :: r.1, m, [], happ.symm, ht, rfl, .close⟩
    · rw [if_neg hc] at h
      cases h

/-- A run of text outside directives that has been read, `final` if the pattern ends with it. -/
structure Plain (final : Bool) (u : List Char) (found : List Node) : Prop where
  spells : ∃ t, Spells opensDirective final u t
  nodes : plainText u = found

theorem plain_nil {final : Bool} : Plain final [] [] := ⟨⟨[], .nil⟩, rfl⟩

theorem Chunk.outside {final : Bool} {n : Node} (h : Chunk .outside final w n) :
    Plain final w [n] := by
  cases h with
  | plain hw h => exact ⟨⟨_, h⟩, by rw [plainText, if_neg hw, h.decode_eq]⟩

theorem Plain.last {final : Bool} (h : Plain final u found) (nested : Reader) :
    items nested u = .ok found := by
  obtain ⟨⟨t, ht⟩, rfl⟩ := h
  rw [items, ht.cut_end escapes_opensDirective]

theorem Plain.enter (h : Plain false u found) (hn : Yields nested v node w)
    (hw : items nested w = .ok nodes) :
    items nested (u ++ '[' :: v) = .ok (found ++ node.toList ++ nodes) := by
  obtain ⟨⟨t, ht⟩, rfl⟩ := h
  have hc : opensDirective '[' = true := by decide
  obtain ⟨r, hcut, hr⟩ := ht.cut_stop escapes_opensDirective hc v
  rw [← hr] at hn
  obtain ⟨r', hnode, rfl⟩ := hn
  rw [items, hcut]
  simp only [hnode]
  rw [hw]

/-- The step that the rest of a pattern begins with, after the text `u`. -/
inductive ItemStep (nested : Reader) (u : List Char) : List Char → List Node → Prop
  | last : ItemStep nested u [] (plainText u)
  | enter {v w : List Char} {node : Option Node} {nodes : List Node}
      (hn : Yields nested v node w) (h : items nested w = .ok nodes) :
      ItemStep nested u ('[' :: v) (plainText u ++ node.toList ++ nodes)

theorem items_step (h : items nested s = .ok nodes) :
    ∃ u t v, s = u ++ v ∧ Spells opensDirective v.isEmpty u t ∧ ItemStep nested u v nodes := by
  rw [items] at h
  rcases cutText_cases escapes_opensDirective s with
    ⟨t, ht, hcut⟩ | ⟨u, t, c, r₁, ht, hc, hs, hcut⟩
  · simp only [hcut] at h
    cases h
    exact ⟨s, t, [], by simp, ht, .last⟩
  · simp only [hcut] at h
    obtain rfl : c = '[' := by simpa [opensDirective] using hc
    refine ⟨u, t, '[' :: r₁.1, hs, ht, ?_⟩
    split at h
    · cases h
    · rename_i node r' hn
      split at h
      · cases h
      · rename_i nodes' hnodes
        cases h
        exact .enter ⟨r', hn, rfl⟩ hnodes

end Phrasebook.Pattern
