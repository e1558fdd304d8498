import Phrasebook.Proofs.Pattern.Halting

/-!
# What reading comes to

Reading a pattern always comes to an end: a tree, a fault that names a place in the pattern, or the
one fault that names none. The last is met exactly where a number would have to be converted that is
too long for it: a reference, or the limit that a message names. The stack on which nested readers
stand is left out.
-/

namespace Phrasebook.Pattern

variable {limit : Int} {room depth left : Nat} {point : Point} {cause : Cause} {u s : List Char}

/-- What stands at the place of a fault. Only a bracket that is never closed can be noticed where
nothing stands any more. -/
inductive Marks (limit : Int) : Cause → List Char → Prop
  | tooDeep {v : List Char} : Marks limit (.nestingTooDeep limit) ('[' :: v)
  | unclosed {v : List Char} : Marks limit .unmatchedBracket ('[' :: v)
  | unended : Marks limit .unmatchedBracket []
  | unknown {c : Char} {v : List Char} (hc : c ≠ ',' ∧ c ≠ ']') :
      Marks limit .unknownContext (c :: v)
  | unsupported {v : List Char} : Marks limit .unsupportedReference ('_' :: '*' :: v)

/-- A reader comes to a reference that has too many digits. -/
def MeetsLong (room : Nat) (s : List Char) : Prop :=
  ∃ point depth u w v k i, s = u ++ (w ++ v) ∧ Reaches room point depth u ∧ Reference w k i ∧
    maxReferenceDigits < k ∧ point.Ends v

/-- A reader comes to a directive inside as many others as there is room for. -/
def MeetsDepth (room : Nat) (s : List Char) : Prop :=
  ∃ place u x v, s = u ++ (x ++ '[' :: v) ∧ Reaches room (.run place) room u ∧ Passage place x

theorem Reaches.bracket (h : Reaches room .method depth u) : ∃ u', u = u' ++ ['['] := by
  cases h with
  | @opens _ _ u x _ _ _ => exact ⟨u ++ x, by simp⟩

theorem Halts.marks (hr : Reaches room point depth u)
    (h : Halts limit room point depth s (.malformed cause left)) :
    ∃ u' v, u ++ s = u' ++ v ∧ left = v.length ∧ Marks limit cause v := by
  cases h with
  | @tooDeep _ x v _ => exact ⟨u ++ x, '[' :: v, by simp, rfl, .tooDeep⟩
  | unclosed _ =>
    obtain ⟨u, rfl⟩ := hr.bracket
    exact ⟨u, '[' :: s, by simp, rfl, .unclosed⟩
  | @unknown _ w v c _ hc => exact ⟨u ++ w, c :: v, by simp, rfl, .unknown hc⟩
  | @unsupported _ _ v _ => exact ⟨u, '_' :: '*' :: v, rfl, rfl, .unsupported⟩
  | unended _ _ _ => exact ⟨u ++ s, [], by simp, rfl, .unended⟩

theorem HaltsIn.marks (h : HaltsIn limit room [] s (.malformed cause left)) :
    ∃ u v, s = u ++ v ∧ left = v.length ∧ Marks limit cause v := by
  obtain ⟨point, depth, u, r, rfl, hr, hh⟩ := h
  exact hh.marks hr

theorem haltsIn_long : HaltsIn limit room [] s .longReference ↔ MeetsLong room s := by
  constructor
  · rintro ⟨point, depth, u, r, rfl, hr, hh⟩
    cases hh with
    | long hw hk hv => exact ⟨point, depth, u, _, _, _, _, rfl, hr, hw, hk, hv⟩
  · rintro ⟨point, depth, u, w, v, k, i, rfl, hr, hw, hk, hv⟩
    exact ⟨point, depth, u, w ++ v, rfl, hr, .long hw hk hv⟩

theorem parseWithin_error_iff (limit : Int) (pattern : String) (fault : Fault) :
    parseWithin limit pattern = .error fault ↔
      ∃ stop, stop.locate pattern = fault ∧
        HaltsIn limit limit.toNat [] pattern.toList stop := by
  unfold parseWithin
  constructor
  · intro h
    split at h
    · cases h
    · rename_i stop hs
      cases h
      exact ⟨stop, rfl, (items_error_iff ..).1 hs⟩
  · rintro ⟨stop, rfl, h⟩
    rw [(items_error_iff ..).2 h]

theorem haltsIn_tooDeep :
    (∃ left, HaltsIn limit room [] s (.malformed (.nestingTooDeep limit) left)) ↔
      MeetsDepth room s := by
  constructor
  · rintro ⟨left, point, depth, u, r, rfl, hr, hh⟩
    cases hh with
    | tooDeep hx => exact ⟨_, u, _, _, rfl, hr, hx⟩
  · rintro ⟨place, u, x, v, rfl, hr, hx⟩
    exact ⟨_, .run place, room, u, _, rfl, hr, .tooDeep hx⟩

/-- The only message that may be impossible to write is the one about the limit. -/
theorem Marks.writable (h : Marks limit cause s) :
    isWritable cause = false ↔ cause = .nestingTooDeep limit ∧ Value.intText limit = none := by
  cases h <;> simp [isWritable]

/-- Reading a pattern yields a sequence or one of two faults. The first kind holds the pattern and
a place between its start and its end, where its cause can be seen. The second kind is there exactly
if a reader comes to a reference with too many digits, or if directives nest deeper than a limit
that itself has too many digits. -/
theorem reading_ends (limit : Int) (pattern : String) :
    ((∃ nodes, parseWithin limit pattern = .ok (.sequence nodes)) ∨
      (∃ cause u v, pattern.toList = u ++ v ∧ Marks limit cause v ∧
        parseWithin limit pattern = .error (.malformed ⟨cause, pattern, u.length⟩)) ∨
      parseWithin limit pattern = .error .longNumber) ∧
    (parseWithin limit pattern = .error .longNumber ↔
      MeetsLong limit.toNat pattern.toList ∨
        (MeetsDepth limit.toNat pattern.toList ∧ Value.intText limit = none)) := by
  constructor
  · cases h : parseWithin limit pattern with
    | ok tree =>
      unfold parseWithin at h
      split at h <;> cases h
      exact .inl ⟨_, rfl⟩
    | error fault =>
      obtain ⟨stop, rfl, hs⟩ := (parseWithin_error_iff ..).1 h
      cases stop with
      | longReference => exact .inr (.inr rfl)
      | malformed cause left =>
        by_cases hw : isWritable cause = true
        · obtain ⟨u, v, huv, rfl, hm⟩ := hs.marks
          refine .inr (.inl ⟨cause, u, v, huv, hm, ?_⟩)
          simp only [Stop.locate, if_pos hw, huv, List.length_append, Nat.add_sub_cancel]
        · simp only [Stop.locate, if_neg hw]
          exact .inr (.inr trivial)
  · rw [parseWithin_error_iff, ← haltsIn_long, ← haltsIn_tooDeep]
    constructor
    · rintro ⟨stop, hl, h⟩
      cases stop with
      | longReference => exact .inl h
      | malformed cause left =>
        have hw : isWritable cause = false := by
          by_cases hw : isWritable cause = true
          · simp [Stop.locate, hw] at hl
          · simpa using hw
        obtain ⟨u, v, -, -, hm⟩ := h.marks
        obtain ⟨rfl, hlimit⟩ := hm.writable.1 hw
        exact .inr ⟨⟨left, h⟩, hlimit⟩
    · rintro (h | ⟨⟨left, h⟩, hlimit⟩)
      · exact ⟨_, rfl, h⟩
      · refine ⟨_, ?_, h⟩
        simp [Stop.locate, isWritable, hlimit]

end Phrasebook.Pattern
