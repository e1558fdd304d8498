import Mathlib.Algebra.Group.Nat.Defs
import Phrasebook.Proofs.Pattern.Location

/-!
# Limits on nesting

A limit only cuts reading off. Beside each reader stands the log of the directives that it opens, in
their order and up to the first fault. Reading with a limit comes to what reading with a greater
limit comes to, unless a directive is logged there one level deeper than the limit allows: then it
stops at the first of these. The proof follows the readers, by induction on the room of a directive
and on what is left.
-/

namespace Phrasebook.Pattern

variable {α β γ : Type} {limit limit' : Int} {room extra level n : Nat} {nested nested' : Reader}
  {inside : List Char → List Opening} {log more : List Opening} {o : Opening} {s : List Char}
  {stop : Stop} {cause : Cause}

/-- A directive that is opened: its level, which is 1 outside all others, and the number of
characters left from its bracket on. -/
structure Opening where
  level : Nat
  left : Nat
  deriving DecidableEq, Repr

def openedAfter (x : Except Stop α) (more : α → List Opening) : List Opening :=
  match x with
  | .error _ => []
  | .ok a => more a

def argumentOpenings (inside : List Char → List Opening) (nested : Reader) (s : List Char) :
    List Opening :=
  match cutText endsArgument s with
  | (_, none) => []
  | (text, some (c, r)) =>
    openedAfter (argumentText text s.length) fun _ =>
      if c = ']' then []
      else if c = ',' then argumentOpenings inside nested r.1
      else
        inside r.1 ++
          openedAfter (nested r.1) fun (_, r') => argumentOpenings inside nested r'.1
termination_by s.length
decreasing_by
  · exact r.2
  · exact Nat.lt_trans r'.2 r.2

def directiveOpenings (limit : Int) : (room level : Nat) → List Char → List Opening
  | 0, _, _ => []
  | room + 1, level, s =>
    ⟨level, s.length + 1⟩ ::
      match cutMethod s with
      | (_, none) => []
      | (token, some (c, r)) =>
        if c = ',' then
          openedAfter (method token s.length) fun _ =>
            argumentOpenings (directiveOpenings limit room (level + 1)) (directive limit room) r.1
        else []

def itemOpenings (inside : List Char → List Opening) (nested : Reader) (s : List Char) :
    List Opening :=
  match cutText opensDirective s with
  | (_, none) => []
  | (_, some (_, r)) =>
    inside r.1 ++ openedAfter (nested r.1) fun (_, r') => itemOpenings inside nested r'.1
termination_by s.length
decreasing_by exact Nat.lt_trans r'.2 r.2

/-- The directives of a pattern that are opened before any fault, in their order. -/
def openings (limit : Int) (s : List Char) : List Opening :=
  itemOpenings (directiveOpenings limit limit.toNat 1) (directive limit limit.toNat) s

def firstAt (level : Nat) (log : List Opening) : Option Opening := log.find? (·.level = level)

/-- The position of the first directive that is opened at a level before any fault. -/
def firstOpening (limit : Int) (level : Nat) (pattern : String) : Option Nat :=
  (firstAt level (openings limit pattern.toList)).map fun o => pattern.toList.length - o.left

example : firstOpening 9 2 "a[b,c][d,[e]x[" = some 9 := by decide +kernel

/-- `x` is `y` when reading stops at the first directive of the log that is beyond the limit. -/
def Cut (limit : Int) (log : List Opening) (x y : Except Stop α) : Prop :=
  match firstAt (limit.toNat + 1) log with
  | none => x = y
  | some o => x = .error (.malformed (.nestingTooDeep limit) o.left)

section Cuts

variable {x y : Except Stop α}

theorem firstAt_append (level : Nat) (log more : List Opening) :
    firstAt level (log ++ more) = (firstAt level log).or (firstAt level more) :=
  List.find?_append

theorem cut_self (x : Except Stop α) : Cut limit [] x x := rfl

theorem Cut.eq (h : Cut limit log x y) (hl : firstAt (limit.toNat + 1) log = none) : x = y := by
  rw [Cut, hl] at h
  exact h

theorem Cut.stops (h : Cut limit log x y) (hl : firstAt (limit.toNat + 1) log = some o) :
    x = .error (.malformed (.nestingTooDeep limit) o.left) := by
  rw [Cut, hl] at h
  exact h

theorem Cut.skip (h : Cut limit log x y) (hl : o.level ≠ limit.toNat + 1) :
    Cut limit (o :: log) x y := by
  unfold Cut firstAt
  rw [List.find?_cons_of_neg (by simpa using hl)]
  exact h

theorem Cut.map (h : Cut limit log x y) (f : α → β) : Cut limit log (x.map f) (y.map f) := by
  unfold Cut
  cases hl : firstAt (limit.toNat + 1) log with
  | none => rw [h.eq hl]
  | some o =>
    rw [h.stops hl]
    rfl

/-- A step and what is read behind it are cut off together. -/
theorem Cut.bind {more : α → List Opening} {k k' : α → Except Stop β} (h : Cut limit log x y)
    (hk : ∀ a, Cut limit (more a) (k a) (k' a)) :
    Cut limit (log ++ openedAfter y more) (x.bind k) (y.bind k') := by
  unfold Cut
  rw [firstAt_append]
  cases hl : firstAt (limit.toNat + 1) log with
  | some o =>
    rw [h.stops hl]
    rfl
  | none =>
    obtain rfl := h.eq hl
    cases x with
    | error stop => rfl
    | ok a => exact hk a

theorem cut_behind {more : α → List Opening} {k k' : α → Except Stop β} (x : Except Stop α)
    (hk : ∀ a, Cut limit (more a) (k a) (k' a)) :
    Cut limit (openedAfter x more) (x.bind k) (x.bind k') :=
  (cut_self x).bind hk

end Cuts

section Readers

theorem items_inside {text : List Char} {c : Char} {r : Rest s}
    (h : cutText opensDirective s = (text, some (c, r))) (nested : Reader) :
    items nested s = (nested r.1).bind fun (node, r') =>
      (items nested r'.1).map (plainText text ++ node.toList ++ ·) := by
  rw [items, h]
  dsimp only
  rcases nested r.1 with stop | ⟨node, r'⟩
  · rfl
  · dsimp only [Except.bind]
    cases items nested r'.1 <;> rfl

theorem items_cut (h : ∀ s, Cut limit (inside s) (nested s) (nested' s)) (s : List Char) :
    Cut limit (itemOpenings inside nested' s) (items nested s) (items nested' s) := by
  induction hlen : s.length using Nat.strongRecOn generalizing s with
  | _ len ih =>
    rw [itemOpenings]
    rcases hcut : cutText opensDirective s with ⟨text, _ | ⟨c, r⟩⟩
    · rw [items, items, hcut]
      exact cut_self _
    · rw [items_inside hcut, items_inside hcut]
      refine (h r.1).bind fun found => (ih found.2.1.length ?_ found.2.1 rfl).map _
      rw [← hlen]
      exact Nat.lt_trans found.2.2 r.2

theorem arguments_behind {text : List Char} {c : Char} {r : Rest s}
    (h : cutText endsArgument s = (text, some (c, r))) (nested : Reader) (parts : List Node) :
    arguments nested s parts = (argumentText text s.length).bind fun found =>
      if c = ']' then .ok ([collapse (parts ++ found)], r)
      else if c = ',' then
        (arguments nested r.1 []).map fun (args, r') =>
          (collapse (parts ++ found) :: args, r.within r')
      else
        (nested r.1).bind fun (node, r') =>
          (arguments nested r'.1 (parts ++ found ++ node.toList)).map fun (args, r'') =>
            (args, (r.within r').within r'') := by
  rw [arguments, h]
  dsimp only
  cases argumentText text s.length with
  | error stop => rfl
  | ok found =>
    dsimp only [Except.bind]
    congr 2
    · rcases arguments nested r.1 [] with stop | ⟨args, r'⟩ <;> rfl
    · rcases nested r.1 with stop | ⟨node, r'⟩
      · rfl
      · dsimp only
        rcases arguments nested r'.1 _ with stop | ⟨args, r''⟩ <;> rfl

theorem arguments_cut (h : ∀ s, Cut limit (inside s) (nested s) (nested' s)) (s : List Char)
    (parts : List Node) :
    Cut limit (argumentOpenings inside nested' s) (arguments nested s parts)
      (arguments nested' s parts) := by
  induction hlen : s.length using Nat.strongRecOn generalizing s parts with
  | _ len ih =>
    rw [argumentOpenings]
    rcases hcut : cutText endsArgument s with ⟨text, _ | ⟨c, r⟩⟩
    · rw [arguments, arguments, hcut]
      dsimp only
      cases argumentText text s.length <;> exact cut_self _
    · rw [arguments_behind hcut, arguments_behind hcut]
      refine cut_behind _ fun found => ?_
      have hr : r.1.length < len := hlen ▸ r.2
      by_cases hclose : c = ']'
      · rw [if_pos hclose, if_pos hclose, if_pos hclose]
        exact cut_self _
      · rw [if_neg hclose, if_neg hclose, if_neg hclose]
        by_cases hcomma : c = ','
        · rw [if_pos hcomma, if_pos hcomma, if_pos hcomma]
          exact (ih r.1.length hr r.1 [] rfl).map _
        · rw [if_neg hcomma, if_neg hcomma, if_neg hcomma]
          exact (h r.1).bind fun inner =>
            (ih inner.2.1.length (Nat.lt_trans inner.2.2 hr) inner.2.1 _ rfl).map _

theorem directive_behind {token : List Char} {r : Rest s}
    (h : cutMethod s = (token, some (',', r))) (limit : Int) (room : Nat) :
    directive limit (room + 1) s = (method token s.length).bind fun m =>
      (arguments (directive limit room) r.1 []).map fun (args, r') =>
        (m.node args, r.within r') := by
  rw [directive, h]
  dsimp only
  rw [if_pos (.inl rfl)]
  cases method token s.length with
  | error stop => rfl
  | ok m =>
    dsimp only [Except.bind]
    rw [if_neg (by decide)]
    rcases arguments (directive limit room) r.1 [] with stop | ⟨args, r'⟩ <;> rfl

theorem directive_alone {token : List Char} {c : Char} {r : Rest s}
    (h : cutMethod s = (token, some (c, r))) (hc : c ≠ ',') (limit : Int) (room : Nat) :
    directive limit (room + 1) s =
      if c = ']' then (method token s.length).map fun m => (m.node [], r)
      else .error (.malformed .unknownContext (r.1.length + 1)) := by
  rw [directive, h]
  dsimp only
  by_cases hclose : c = ']'
  · rw [if_pos (.inr hclose), if_pos hclose]
    cases method token s.length with
    | error stop => rfl
    | ok m => exact if_pos hclose
  · rw [if_neg (not_or.2 ⟨hc, hclose⟩), if_neg hclose]

/-- With less room, a directive is read in the same way as with more, up to the limit. When there is
no difference in room, the limits are to be the same, since messages name them. -/
theorem directive_cut (hextra : extra = 0 → limit = limit')
    (hroom : level + room = limit.toNat + 1) (s : List Char) :
    Cut limit (directiveOpenings limit' (room + extra) level s) (directive limit room s)
      (directive limit' (room + extra) s) := by
  induction room generalizing level s with
  | zero =>
    cases extra with
    | zero =>
      obtain rfl := hextra rfl
      exact cut_self _
    | succ extra =>
      -- only the greater limit has room here, and this is the first directive beyond the lower one
      obtain rfl : level = limit.toNat + 1 := hroom
      unfold Cut firstAt
      rw [Nat.zero_add, directiveOpenings, List.find?_cons_of_pos (by simp), directive]
  | succ room ih =>
    have hne : level ≠ limit.toNat + 1 := by omega
    rw [Nat.succ_add, directiveOpenings]
    refine Cut.skip ?_ hne
    rcases hcut : cutMethod s with ⟨token, _ | ⟨c, r⟩⟩
    · rw [directive, directive, hcut]
      exact cut_self _
    · dsimp only
      by_cases hcomma : c = ','
      · subst hcomma
        rw [if_pos rfl, directive_behind hcut, directive_behind hcut]
        have hdeeper : level + 1 + room = limit.toNat + 1 := by omega
        exact cut_behind _ fun m => (arguments_cut (ih hdeeper) r.1 []).map _
      · rw [if_neg hcomma, directive_alone hcut hcomma, directive_alone hcut hcomma]
        exact cut_self _

/-- Reading a pattern with a limit is reading it with a greater one, cut off. -/
theorem openings_cut (hl : 0 ≤ limit) (hle : limit ≤ limit') (s : List Char) :
    Cut limit (openings limit' s) (items (directive limit limit.toNat) s)
      (items (directive limit' limit'.toNat) s) := by
  obtain ⟨extra, hextra⟩ := Nat.exists_eq_add_of_le (Int.toNat_le_toNat hle)
  rw [openings, hextra]
  exact items_cut (directive_cut (fun h => by omega) (Nat.add_comm ..)) s

end Readers

section Levels

theorem mem_openedAfter {x : Except Stop α} {more : α → List Opening} :
    o ∈ openedAfter x more ↔ ∃ a, x = .ok a ∧ o ∈ more a := by
  cases x with
  | error stop => simp [openedAfter]
  | ok a => simp [openedAfter]

theorem argumentOpenings_below (h : ∀ s, ∀ o ∈ inside s, o.level < n) (s : List Char) :
    ∀ o ∈ argumentOpenings inside nested s, o.level < n := by
  induction hlen : s.length using Nat.strongRecOn generalizing s with
  | _ len ih =>
    intro o ho
    rw [argumentOpenings] at ho
    rcases hcut : cutText endsArgument s with ⟨text, _ | ⟨c, r⟩⟩
    · rw [hcut] at ho
      cases ho
    · rw [hcut] at ho
      obtain ⟨found, -, ho⟩ := mem_openedAfter.1 ho
      have hr : r.1.length < len := hlen ▸ r.2
      split at ho
      · cases ho
      · split at ho
        · exact ih _ hr _ rfl o ho
        · rcases List.mem_append.1 ho with ho | ho
          · exact h r.1 o ho
          · obtain ⟨⟨node, r'⟩, -, ho⟩ := mem_openedAfter.1 ho
            exact ih _ (Nat.lt_trans r'.2 hr) _ rfl o ho

theorem itemOpenings_below (h : ∀ s, ∀ o ∈ inside s, o.level < n) (s : List Char) :
    ∀ o ∈ itemOpenings inside nested s, o.level < n := by
  induction hlen : s.length using Nat.strongRecOn generalizing s with
  | _ len ih =>
    intro o ho
    rw [itemOpenings] at ho
    rcases hcut : cutText opensDirective s with ⟨text, _ | ⟨c, r⟩⟩
    · rw [hcut] at ho
      cases ho
    · rw [hcut] at ho
      rcases List.mem_append.1 ho with ho | ho
      · exact h r.1 o ho
      · obtain ⟨⟨node, r'⟩, -, ho⟩ := mem_openedAfter.1 ho
        exact ih _ (hlen ▸ Nat.lt_trans r'.2 r.2) _ rfl o ho

theorem directiveOpenings_below (limit : Int) (room level : Nat) (s : List Char) :
    ∀ o ∈ directiveOpenings limit room level s, o.level < level + room := by
  induction room generalizing level s with
  | zero =>
    intro o ho
    cases ho
  | succ room ih =>
    intro o ho
    rw [directiveOpenings] at ho
    rcases List.mem_cons.1 ho with rfl | ho
    · exact Nat.lt_add_of_pos_right (Nat.succ_pos room)
    · rcases hcut : cutMethod s with ⟨token, _ | ⟨c, r⟩⟩
      · rw [hcut] at ho
        cases ho
      · rw [hcut] at ho
        dsimp only at ho
        split at ho
        · obtain ⟨m, -, ho⟩ := mem_openedAfter.1 ho
          have hdeeper : level + 1 + room = level + (room + 1) := by omega
          rw [← hdeeper]
          exact argumentOpenings_below (ih (level + 1)) r.1 o ho
        · cases ho

theorem firstOpening_beyond (hl : limit' ≤ limit) (pattern : String) :
    firstOpening limit' (limit.toNat + 1) pattern = none := by
  unfold firstOpening firstAt
  rw [Option.map_eq_none_iff, List.find?_eq_none]
  intro o ho
  have hbelow := itemOpenings_below (directiveOpenings_below limit' limit'.toNat 1) _ o ho
  have := Int.toNat_le_toNat hl
  simp only [decide_eq_true_eq]
  omega

theorem openAfter_le (depth : Nat) (s : List Char) : openAfter depth s ≤ depth + s.count '[' := by
  fun_induction openAfter depth s with
  | case1 depth c s _ ih => grind
  | case2 depth c s _ ih => grind
  | case3 depth s ih => grind
  | case4 depth s ih => grind
  | case5 depth c s _ _ _ ih => grind
  | case6 depth => omega

theorem not_meetsDepth (h : s.count '[' ≤ room) : ¬ MeetsDepth room s := by
  rintro ⟨place, u, x, v, rfl, hr, hx⟩
  have hopen := openAfter_le 0 u
  rw [hr.openAfter_eq] at hopen
  simp only [List.count_append, List.count_cons_self] at h
  omega

end Levels

section Faults

variable {d d' : Int} {pattern : String} {m : Malformed}

/-- The fault of a directive at `n` that is nested too deep. A limit that has too many digits to be
named in a message leads to the fault of such numbers. -/
def tooDeepAt (limit : Int) (pattern : String) (n : Nat) : Fault :=
  if isWritable (.nestingTooDeep limit) then .malformed ⟨.nestingTooDeep limit, pattern, n⟩
  else .longNumber

theorem parseWithin_error {fault : Fault} (h : items (directive limit limit.toNat) pattern.toList =
    .error stop) (hs : stop.locate pattern = fault) : parseWithin limit pattern = .error fault := by
  unfold parseWithin
  rw [h, ← hs]

/-- Reading comes to the same under both limits, or a directive is nested too deep for the lower
one, and is the first such directive that is opened under the other. -/
theorem parseWithin_cut (hd : 0 ≤ d) (hle : d ≤ d') (pattern : String) :
    (firstOpening d' (d.toNat + 1) pattern = none ∧
      parseWithin d pattern = parseWithin d' pattern) ∨
    (∃ n, firstOpening d' (d.toNat + 1) pattern = some n ∧
      parseWithin d pattern = .error (tooDeepAt d pattern n)) := by
  have hcut := openings_cut hd hle pattern.toList
  unfold firstOpening
  cases ho : firstAt (d.toNat + 1) (openings d' pattern.toList) with
  | none =>
    refine .inl ⟨rfl, ?_⟩
    unfold parseWithin
    rw [hcut.eq ho]
  | some o => exact .inr ⟨_, rfl, parseWithin_error (hcut.stops ho) rfl⟩

theorem code_tooDeep {cause : Cause} (h : cause.code = .nestingDepthExceeded) :
    ∃ limit, cause = .nestingTooDeep limit := by
  cases cause with
  | nestingTooDeep limit => exact ⟨limit, rfl⟩
  | unmatchedBracket => cases h
  | unknownContext => cases h
  | unsupportedReference => cases h

theorem not_tooDeep (hb : (pattern.toList.count '[' : Int) < limit)
    (h : parseWithin limit pattern = .error (.malformed m)) :
    m.cause.code ≠ .nestingDepthExceeded := by
  intro hcode
  obtain ⟨l, hcause⟩ := code_tooDeep hcode
  obtain ⟨stop, hstop, hhalts⟩ := (parseWithin_error_iff ..).1 h
  cases stop with
  | longReference => cases hstop
  | malformed cause left =>
    by_cases hw : isWritable cause = true
    · rw [Stop.locate, if_pos hw] at hstop
      cases hstop
      obtain rfl : cause = .nestingTooDeep l := hcause
      obtain ⟨u, v, -, -, hmarks⟩ := hhalts.marks
      cases hmarks
      exact not_meetsDepth (by omega) (haltsIn_tooDeep.1 ⟨left, hhalts⟩)
    · rw [Stop.locate, if_neg hw] at hstop
      cases hstop

theorem tooDeepAt_code (hw : ¬ isWritable (.nestingTooDeep d) = true) (n : Nat) :
    tooDeepAt d pattern n ≠ .malformed m := by
  rw [tooDeepAt, if_neg hw]
  rintro ⟨⟩

theorem le_of_not_writable (hd : 0 ≤ limit) (h : isWritable (.nestingTooDeep limit) = false) :
    10 ^ Value.maxDigits ≤ limit.toNat := by
  rw [isWritable, Option.isSome_eq_false_iff, Option.isNone_iff_eq_none, Value.intText] at h
  by_contra hlt
  have hdigits : (Nat.toDigits 10 limit.natAbs).length ≤ Value.maxDigits :=
    (Nat.length_toDigits_le_iff (by decide) (by decide)).2 (by omega)
  rw [if_neg (Nat.not_lt.2 hdigits)] at h
  cases h

theorem lt_count_of_firstOpening (hd : 0 ≤ d) (hle : d ≤ d') {n : Nat}
    (h : firstOpening d' (d.toNat + 1) pattern = some n) : d.toNat < pattern.toList.count '[' := by
  obtain ⟨o, ho, -⟩ := Option.map_eq_some_iff.1 h
  have hstop := (openings_cut hd hle pattern.toList).stops ho
  by_contra hlt
  exact not_meetsDepth (Nat.not_lt.1 hlt) (haltsIn_tooDeep.1 ⟨_, (items_error_iff ..).1 hstop⟩)

end Faults

/-- A limit on nesting only cuts reading off: what is read under it is read in the same way under
every greater limit, and so is every fault at the same place, unless a directive is nested too deep.
That is reported at a place exactly if, under a limit that the brackets of the pattern do not
reach, the first directive that is opened one level beyond the limit stands there. A message that
cannot name its limit becomes the fault of long numbers; that takes a pattern with as many brackets
as no number of 4300 digits can count. -/
theorem limit_cuts_off {d d' : Int} (hd : 0 ≤ d) (hle : d ≤ d') (pattern : String) :
    (∀ tree, parseWithin d pattern = .ok tree → parseWithin d' pattern = .ok tree) ∧
    (∀ fault, parseWithin d pattern = .error fault →
      (∀ m, fault = .malformed m → m.cause.code ≠ .nestingDepthExceeded) →
      parseWithin d' pattern = .error fault ∨
        (fault = .longNumber ∧ isWritable (.nestingTooDeep d) = false ∧
          ∃ n, firstOpening d' (d.toNat + 1) pattern = some n)) ∧
    (∀ unreached n, (pattern.toList.count '[' : Int) < unreached →
      ((∃ m, parseWithin d pattern = .error (.malformed m) ∧
          m.cause.code = .nestingDepthExceeded ∧ m.position = n) ↔
        firstOpening unreached (d.toNat + 1) pattern = some n ∧
          isWritable (.nestingTooDeep d) = true)) ∧
    (∀ n, firstOpening d' (d.toNat + 1) pattern = some n →
      isWritable (.nestingTooDeep d) = false →
      10 ^ Value.maxDigits ≤ pattern.toList.count '[') := by
  refine ⟨fun tree h => ?_, fun fault h hcode => ?_, fun unreached n hb => ?_,
    fun n hn hw => ?_⟩
  · rcases parseWithin_cut hd hle pattern with ⟨-, heq⟩ | ⟨n, -, heq⟩
    · rw [← heq, h]
    · rw [heq] at h
      cases h
  · rcases parseWithin_cut hd hle pattern with ⟨-, heq⟩ | ⟨n, hn, heq⟩
    · rw [← heq]
      exact .inl h
    · rw [heq] at h
      cases h
      by_cases hw : isWritable (.nestingTooDeep d) = true
      · rw [tooDeepAt, if_pos hw] at hcode
        exact absurd rfl (hcode _ rfl)
      · exact .inr ⟨if_neg hw, Bool.eq_false_iff.2 hw, n, hn⟩
  · -- a limit that the brackets do not reach may still be lower than `d`, which then is not reached
    rcases Int.le_total d unreached with hle | hge
    · rcases parseWithin_cut hd hle pattern with ⟨hn, heq⟩ | ⟨k, hk, heq⟩
      · rw [hn, heq]
        constructor
        · rintro ⟨m, hm, hcode, -⟩
          exact absurd hcode (not_tooDeep hb hm)
        · rintro ⟨⟨⟩, -⟩
      · rw [hk, heq]
        constructor
        · rintro ⟨m, hm, -, rfl⟩
          have hfault := Except.error.inj hm
          by_cases hw : isWritable (.nestingTooDeep d) = true
          · rw [tooDeepAt, if_pos hw] at hfault
            cases hfault
            exact ⟨rfl, hw⟩
          · exact absurd hfault (tooDeepAt_code hw k)
        · rintro ⟨⟨⟩, hw⟩
          exact ⟨_, by rw [tooDeepAt, if_pos hw], rfl, rfl⟩
    · rw [firstOpening_beyond hge]
      constructor
      · rintro ⟨m, hm, hcode, -⟩
        exact absurd hcode (not_tooDeep (Int.lt_of_lt_of_le hb hge) hm)
      · rintro ⟨⟨⟩, -⟩
  · exact Nat.le_trans (le_of_not_writable hd hw)
      (Nat.le_of_lt (lt_count_of_firstOpening hd hle hn))

/-- The bracket at 9 opens the first directive inside another one. With room for one level, reading
stops there; the text before it is read in the same way with room for three. -/
theorem limit_cuts_off_second_level :
    (∀ tree, parseWithin 1 "a[b,c]" = .ok tree → parseWithin 3 "a[b,c]" = .ok tree) ∧
      ∃ m, parseWithin 1 "a[b,c][d,[e]x[" = .error (.malformed m) ∧
        m.cause.code = .nestingDepthExceeded ∧ m.position = 9 := by
  have hle : (0 : Int) ≤ 1 ∧ (1 : Int) ≤ 3 := by decide
  have hcount : (("a[b,c][d,[e]x[".toList.count '[' : Nat) : Int) < 5 := by decide
  have hopening : firstOpening 5 2 "a[b,c][d,[e]x[" = some 9 := by decide +kernel
  obtain ⟨-, -, hexceeded, -⟩ := limit_cuts_off hle.1 hle.2 "a[b,c][d,[e]x["
  exact ⟨(limit_cuts_off hle.1 hle.2 "a[b,c]").1,
    (hexceeded 5 9 hcount).2 ⟨hopening, by decide⟩⟩

end Phrasebook.Pattern
