import Phrasebook.Proofs.Pattern.Exact
import Phrasebook.Proofs.Pattern.Totality

/-!
# What a fault points at

Every fault of a pattern stands at the character that caused it. Which directives are open at a
place is found by counting brackets from the start of the pattern, without any reader; the count
agrees with the readers, by induction on what they have come through.
-/

namespace Phrasebook

namespace Text

theorem offset_append (u v : List Char) : offset (u ++ v) u.length = u.length := by
  rw [offset, if_neg (by omega), List.length_append]
  omega

theorem before_append (u v : List Char) : before (u ++ v) u.length = u := by
  rw [before, offset_append, List.take_left]

theorem after_append (u v : List Char) : after (u ++ v) u.length = v := by
  rw [after, offset_append, List.drop_left]

end Text

namespace Pattern

variable {limit : Int} {room depth : Nat} {stop : Char → Bool} {final : Bool} {point : Point}
  {cause : Cause} {c : Char} {s t u v w : List Char} {nodes : List Node} {m : Method}

/-- The number of directives that are open behind a text, when `depth` are open before it. Escaped
characters do not count, and a bracket that closes nothing is text. -/
def openAfter : Nat → List Char → Nat
  | depth, '~' :: c :: s =>
    if isEscapable c then openAfter depth s else openAfter depth (c :: s)
  | depth, '[' :: s => openAfter (depth + 1) s
  | depth, ']' :: s => openAfter (depth - 1) s
  | depth, _ :: s => openAfter depth s
  | depth, [] => depth

/-- A bracket behind `u` opens a directive: nothing escapes it. -/
def Opens (u : List Char) : Prop := openAfter 0 (u ++ ['[']) = openAfter 0 u + 1

/-- `PointsAt limit u v cause`: the end of `u`, where `v` is left, is a place to which the cause can
be put down. -/
inductive PointsAt (limit : Int) : List Char → List Char → Cause → Prop
  /-- The method of a directive goes on to the end of the pattern. -/
  | unclosed {u s : List Char} (hu : Opens u) (hs : scanMethod s = (s, [])) :
      PointsAt limit u ('[' :: s) .unmatchedBracket
  /-- The pattern ends inside a directive. -/
  | unended {u : List Char} (hu : 0 < openAfter 0 u) : PointsAt limit u [] .unmatchedBracket
  /-- The method `w` of a directive is followed by something else than an argument or its end. -/
  | unknown {u w v : List Char} {c : Char} (hu : Opens u)
      (hw : scanMethod (w ++ c :: v) = (w, c :: v)) (hc : c ≠ ',' ∧ c ≠ ']') :
      PointsAt limit (u ++ '[' :: w) (c :: v) .unknownContext
  | unsupported {u v : List Char} (hu : 0 < openAfter 0 u) :
      PointsAt limit u ('_' :: '*' :: v) .unsupportedReference
  /-- A directive starts inside as many others as the limit allows. -/
  | tooDeep {u v : List Char} (hu : Opens u) (hl : (openAfter 0 u : Int) = limit) :
      PointsAt limit u ('[' :: v) (.nestingTooDeep limit)

example : openAfter 0 "a]~[[b,[c]~]".toList = 1 := by decide

section Counting

theorem openAfter_plain (ht : c ≠ '~') (ho : c ≠ '[') (hc : c ≠ ']') (depth : Nat)
    (s : List Char) : openAfter depth (c :: s) = openAfter depth s := by
  rw [openAfter]
  · rintro d ds rfl
    exact absurd rfl ht
  · exact ho
  · exact hc

theorem Spells.openAfter_append (h : Spells stop final w t) (ho : stop '[' = true)
    (hd : stop ']' = true ∨ depth = 0) (hs : final = true → s = []) :
    openAfter depth (w ++ s) = openAfter depth s := by
  induction h with
  | nil => rfl
  | escape hc _ ih => rw [List.cons_append, List.cons_append, openAfter, if_pos hc, ih hs]
  | tilde hc _ ih =>
    have := ih hs
    rw [List.cons_append] at this
    rw [List.cons_append, List.cons_append, openAfter, if_neg (by simp [hc]), this]
  | @plain _ c _ _ ht hc _ ih =>
    have hne : c ≠ '[' := by
      rintro rfl
      rw [ho] at hc
      cases hc
    by_cases hclose : c = ']'
    · subst hclose
      obtain rfl : depth = 0 := by
        rcases hd with hd | hd
        · rw [hd] at hc
          cases hc
        · exact hd
      rw [List.cons_append, openAfter, ih hs]
    · rw [List.cons_append, openAfter_plain ht hne hclose, ih hs]
  | last =>
    obtain rfl := hs rfl
    rfl

/-- As many directives are open behind `w` as before it, whatever follows. -/
def Balanced (w : List Char) : Prop :=
  ∀ depth s, openAfter depth (w ++ s) = openAfter depth s

theorem balanced_nil : Balanced [] := fun _ _ => rfl

theorem Balanced.append (hw : Balanced w) (hv : Balanced v) : Balanced (w ++ v) := by
  intro depth s
  rw [List.append_assoc, hw, hv]

theorem Balanced.comma (hw : Balanced w) : Balanced (',' :: w) := by
  intro depth s
  rw [List.cons_append, openAfter_plain (by decide) (by decide) (by decide), hw]

theorem balanced_text (h : Spells endsArgument false w t) : Balanced w :=
  fun _ _ => h.openAfter_append rfl (.inl rfl) fun hf => nomatch hf

theorem Token.balanced (h : Token w m) : Balanced w :=
  balanced_text (spells_self escapes_endsArgument h.unescapable)

theorem Balanced.bracketed (hw : Balanced w) : Balanced ('[' :: (w ++ [']'])) := by
  intro depth s
  rw [List.cons_append, openAfter, List.append_assoc, hw, List.singleton_append, openAfter,
    Nat.add_sub_cancel]

def BalancedAs (w : List Char) : Form → Prop
  | .run .outside _ => True
  | .run .argument _ | .directive | .arguments => Balanced w

theorem Derives.balanced {f : Form} (h : Derives f room w nodes) : BalancedAs w f := by
  induction h with
  | @done place =>
    cases place with
    | outside => trivial
    | argument => exact balanced_nil
  | @chunk place _ _ _ _ _ hw _ ihv =>
    cases place with
    | outside => trivial
    | argument =>
      obtain ⟨t, ht⟩ := hw.spells
      exact (balanced_text ht).append ihv
  | @nested place _ _ _ _ _ _ _ _ ihw ihv =>
    cases place with
    | outside => trivial
    | argument => exact Balanced.append ihw ihv
  | none => exact balanced_nil
  | argument _ _ ihw ihv => exact (Balanced.append ihw ihv).comma
  | nothing => exact balanced_nil.bracketed
  | list hw _ _ ih => exact (hw.balanced.append ih).bracketed
  | call hw _ ih => exact (hw.balanced.append ih).bracketed

end Counting

section Readers

theorem Reaches.depth_eq_zero_iff (h : Reaches room point depth u) :
    depth = 0 ↔ point = .run .outside := by
  induction h with
  | start => simp
  | pass _ _ _ ih => exact ih
  | opens => simp
  | first _ _ ih => simpa using ih
  | next _ _ ih => simpa using ih

theorem Reaches.inside (h : Reaches room point depth u) (hp : point ≠ .run .outside) :
    0 < depth :=
  Nat.pos_of_ne_zero fun h0 => hp (h.depth_eq_zero_iff.1 h0)

theorem Passage.openAfter_append {place : Place} {x : List Char}
    (hr : Reaches room (.run place) depth u) (hx : Passage place x) (s : List Char) :
    openAfter depth (x ++ s) = openAfter depth s := by
  rcases hx with rfl | ⟨n, hn⟩
  · rfl
  · cases place with
    | outside =>
      obtain ⟨t, ht⟩ := hn.outside.spells
      exact ht.openAfter_append rfl (.inr (hr.depth_eq_zero_iff.2 rfl)) fun hf => nomatch hf
    | argument =>
      obtain ⟨t, ht⟩ := hn.spells
      exact balanced_text ht depth s

/-- The readers have as many directives open as counting finds. -/
theorem Reaches.openAfter_append (h : Reaches room point depth u) (s : List Char) :
    openAfter 0 (u ++ s) = openAfter depth s := by
  induction h generalizing s with
  | start => rfl
  | pass h hx hw ih =>
    have hbalanced : Balanced _ := hw.balanced
    rw [List.append_assoc, ih, List.append_assoc, hx.openAfter_append h, hbalanced]
  | opens h hx _ ih =>
    rw [List.append_assoc, ih, List.append_assoc, hx.openAfter_append h, List.singleton_append,
      openAfter]
  | first _ hw ih =>
    rw [List.append_assoc, ih, List.append_assoc, hw.balanced, List.singleton_append,
      openAfter_plain (by decide) (by decide) (by decide)]
  | next h hx ih =>
    rw [List.append_assoc, ih, List.append_assoc, hx.openAfter_append h, List.singleton_append,
      openAfter_plain (by decide) (by decide) (by decide)]

theorem Reaches.openAfter_eq (h : Reaches room point depth u) : openAfter 0 u = depth := by
  simpa [openAfter] using h.openAfter_append []

/-- Where a reader comes to a bracket, as many directives are open as it has open, and the bracket
opens one more. -/
theorem Reaches.at_bracket {place : Place} {x : List Char}
    (h : Reaches room (.run place) depth u) (hx : Passage place x) :
    openAfter 0 (u ++ x) = depth ∧ Opens (u ++ x) := by
  have hbefore : openAfter 0 (u ++ x) = depth := by
    have := hx.openAfter_append h []
    rw [List.append_nil] at this
    rw [h.openAfter_append, this, openAfter]
  have hbehind : openAfter 0 (u ++ x ++ ['[']) = depth + 1 := by
    rw [List.append_assoc, h.openAfter_append, hx.openAfter_append h, openAfter, openAfter]
  exact ⟨hbefore, by rw [Opens, hbefore, hbehind]⟩

theorem Reaches.behind_bracket (h : Reaches room .method depth u) :
    ∃ u', u = u' ++ ['['] ∧ Opens u' := by
  cases h with
  | @opens _ _ u x h hx _ => exact ⟨u ++ x, by simp, (h.at_bracket hx).2⟩

theorem Point.Ends.inside (h : point.Ends v) : point ≠ .run .outside := by
  rintro rfl
  exact h

/-- What stops a reader stops it at the place that its fault is put down to. -/
theorem Halts.points_at {left : Nat} (hl : (room : Int) = limit)
    (hr : Reaches room point depth u)
    (h : Halts limit room point depth s (.malformed cause left)) :
    ∃ u' v, u ++ s = u' ++ v ∧ left = v.length ∧ PointsAt limit u' v cause := by
  cases h with
  | @tooDeep _ x v hx =>
    obtain ⟨hdepth, hopens⟩ := hr.at_bracket hx
    exact ⟨u ++ x, '[' :: v, by simp, rfl, .tooDeep hopens (by rw [hdepth, hl])⟩
  | unclosed hs =>
    obtain ⟨u, rfl, hu⟩ := hr.behind_bracket
    exact ⟨u, '[' :: s, by simp, rfl, .unclosed hu hs⟩
  | @unknown _ w v c hw hc =>
    obtain ⟨u, rfl, hu⟩ := hr.behind_bracket
    exact ⟨u ++ '[' :: w, c :: v, by simp, rfl, .unknown hu hw hc⟩
  | @unsupported _ _ v hv =>
    have hinside := hr.inside hv.inside
    exact ⟨u, '_' :: '*' :: v, rfl, rfl, .unsupported (by rw [hr.openAfter_eq]; exact hinside)⟩
  | @unended _ _ t ht _ _ =>
    have hcount : openAfter depth s = depth := by
      have : openAfter depth (s ++ []) = openAfter depth [] :=
        ht.openAfter_append rfl (.inl rfl) fun _ => rfl
      rwa [List.append_nil, openAfter] at this
    have hinside := hr.inside (by simp)
    refine ⟨u ++ s, [], by simp, rfl, .unended ?_⟩
    rw [hr.openAfter_append, hcount]
    exact hinside

end Readers

/-- A fault that is put down to the end of `u`, before `v`: its position, the mark in its context
and in its message, and the empty span of its diagnostic are all there, and such a span exists. -/
structure Malformed.Stands (m : Malformed) (pattern : String) (u v : List Char) : Prop where
  split : pattern.toList = u ++ v
  pattern_eq : m.pattern = pattern
  position : m.position = u.length
  context : m.context = String.ofList u ++ Text.hereMark ++ String.ofList v
  message : m.diagnostic.message = m.cause.summary ++ ": " ++ m.context
  code : m.diagnostic.code = m.cause.code
  span : ∃ span, Span.pointAt pattern m.position = .ok span ∧ m.diagnostic.span = some span ∧
    span.start = u.length ∧ span.stop = u.length

theorem stands_at {pattern : String} (hp : pattern.toList = u ++ v) :
    Malformed.Stands ⟨cause, pattern, u.length⟩ pattern u v where
  split := hp
  pattern_eq := rfl
  position := rfl
  context := by
    rw [Malformed.context, Text.markAt, hp, Text.before_append, Text.after_append]
  message := rfl
  code := rfl
  span := ⟨_, Span.pointAt_natCast pattern u.length, rfl, rfl, rfl⟩

/-- A syntax error stands at its cause: at a bracket whose method goes to the end of the pattern or
at the end of a pattern that leaves a directive open, at the character behind a method that can
neither start an argument nor close the directive, at an unsupported reference, or at a bracket
inside exactly as many open directives as the limit allows. Its position, its marks and its span
are all this place, for which there always is a span. -/
theorem faults_point_at_cause {limit : Int} {pattern : String} {m : Malformed} (hl : 0 ≤ limit)
    (h : parseWithin limit pattern = .error (.malformed m)) :
    ∃ u v, m.Stands pattern u v ∧ PointsAt limit u v m.cause := by
  obtain ⟨stop, hstop, point, depth, u, r, hp, hr, hh⟩ := (parseWithin_error_iff ..).1 h
  cases stop with
  | longReference => cases hstop
  | malformed cause left =>
    by_cases hw : isWritable cause = true
    · rw [Stop.locate, if_pos hw] at hstop
      cases hstop
      rw [List.nil_append] at hr
      obtain ⟨u', v, huv, rfl, hpoints⟩ := hh.points_at (Int.toNat_of_nonneg hl) hr
      rw [huv] at hp
      have hposition : pattern.toList.length - v.length = u'.length := by
        rw [hp, List.length_append, Nat.add_sub_cancel]
      rw [hposition]
      exact ⟨u', v, stands_at hp, hpoints⟩
    · rw [Stop.locate, if_neg hw] at hstop
      cases hstop

def faultOf : Except Fault Node → Option Fault
  | .ok _ => none
  | .error fault => some fault

theorem faultOf_eq_some {x : Except Fault Node} {fault : Fault} (h : faultOf x = some fault) :
    x = .error fault := by
  cases x with
  | ok node => cases h
  | error f =>
    cases h
    rfl

/-- Behind an escaped bracket and an escaped tilde, the second directive is one too many. -/
theorem faults_point_at_cause_nested :
    (0 : Int) ≤ 1 ∧
    parseWithin 1 "a~[[b,~~[c" =
      .error (.malformed ⟨.nestingTooDeep 1, "a~[[b,~~[c", 8⟩) ∧
    ∃ u v, Malformed.Stands ⟨.nestingTooDeep 1, "a~[[b,~~[c", 8⟩ "a~[[b,~~[c" u v ∧
      PointsAt 1 u v (.nestingTooDeep 1) := by
  have hread : parseWithin 1 "a~[[b,~~[c" =
      .error (.malformed ⟨.nestingTooDeep 1, "a~[[b,~~[c", 8⟩) :=
    faultOf_eq_some (by decide +kernel)
  exact ⟨by decide, hread, faults_point_at_cause (by decide) hread⟩

end Pattern

end Phrasebook
