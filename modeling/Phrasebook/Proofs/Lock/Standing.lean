import Phrasebook.Proofs.Lock.Sleepers

/-!
# What a lock counts

A lock counts how often each actor reads, who writes, and how many wait to write. Actors change
this by moves: they take the lock or give it back, and on the way to writing they join a queue and
quit it. So the standing of a lock is its earlier standing with the moves made since, and who can
take the lock at once depends on the standing alone.
-/

namespace Phrasebook.Lock

variable {l o l' : Lock} {a b : Actor} {m : Mode} {s : Sleeper} {e : Event} {es : List Event}
  {expired : Bool}

/-- The number of those who wait is an integer, so that to quit undoes to join. -/
@[ext]
structure Standing where
  depth : Actor → Nat
  writer : Option Actor
  waiting : Int

def standing (l : Lock) : Standing := ⟨l.depth, l.writer, l.waitingWriters⟩

inductive Move where
  | join (actor : Actor)
  | quit (actor : Actor)
  | take (actor : Actor) (mode : Mode)
  | give (actor : Actor) (mode : Mode)
  deriving DecidableEq, Repr

def Move.actor : Move → Actor
  | .join a | .quit a | .take a _ | .give a _ => a

def Standing.after (s : Standing) : Move → Standing
  | .join _ => { s with waiting := s.waiting + 1 }
  | .quit _ => { s with waiting := s.waiting - 1 }
  | .take a .read => { s with depth := fun b => if a = b then s.depth b + 1 else s.depth b }
  | .take a .write => { s with writer := some a }
  | .give a .read => { s with depth := fun b => if a = b then s.depth b - 1 else s.depth b }
  | .give _ .write => { s with writer := none }

def queues (a : Actor) (m : Mode) (move : Actor → Move) : List Move :=
  match m with
  | .read => []
  | .write => [move a]

def entering (a : Actor) (m : Mode) : Attempt → List Move
  | .taken => [.take a m]
  | .asleep => queues a m .join
  | .refused _ => []

def waking (a : Actor) (m : Mode) : Attempt → List Move
  | .taken => queues a m .quit ++ [.take a m]
  | .asleep => []
  | .refused _ => queues a m .quit

def moves (l : Lock) : Event → List Move
  | .enter a m expired =>
    if l.isAsleep a then [] else entering a m (l.acquire a m expired).2
  | .wake a expired =>
    match l.sleepers.find? (·.actor = a) with
    | none => []
    | some s => waking a s.mode (l.resume a expired).2
  | .leave a m =>
    if l.isAsleep a then []
    else
      match l.release a m with
      | .ok _ => [.give a m]
      | .error _ => []
  | .stir => []

def after (l : Lock) (es : List Event) : Lock := es.foldl (fun l e => (l.next e).1) l

def movesOf (l : Lock) : List Event → List Move
  | [] => []
  | e :: es => l.moves e ++ (l.next e).1.movesOf es

theorem session_append (events es : List Event) :
    (session (events ++ es)).1 = (session events).1.after es := by
  induction es generalizing events with
  | nil => rw [List.append_nil, after, List.foldl_nil]
  | cons e es ih =>
    rw [← List.singleton_append, ← List.append_assoc, ih, session_snoc]
    rfl

theorem Queued.next (hq : Queued 0 l) (e : Event) : Queued 0 (l.next e).1 :=
  hq.step (step_next l e)

theorem Queued.after (hq : Queued 0 l) (es : List Event) : Queued 0 (l.after es) := by
  induction es generalizing l with
  | nil => exact hq
  | cons e es ih => exact ih (hq.next e)

theorem depth_insert (l : Lock) (a b : Actor) (n : Nat) :
    { l with readers := l.readers.insert a n }.depth b = if a = b then n else l.depth b := by
  simp only [depth, Table.get?_insert]
  split <;> rfl

theorem depth_erase (l : Lock) (a b : Actor) :
    { l with readers := l.readers.erase a }.depth b = if a = b then 0 else l.depth b := by
  simp only [depth, Table.get?_erase]
  split <;> rfl

theorem standing_insert (l : Lock) (a : Actor) :
    { l with readers := l.readers.insert a (l.depth a + 1) }.standing =
      l.standing.after (.take a .read) := by
  refine Standing.ext (funext fun b => ?_) rfl rfl
  change { l with readers := l.readers.insert a (l.depth a + 1) }.depth b =
    if a = b then l.depth b + 1 else l.depth b
  rw [depth_insert]
  by_cases hab : a = b
  · rw [if_pos hab, if_pos hab, hab]
  · rw [if_neg hab, if_neg hab]

def handTo (l : Lock) (a : Actor) : Mode → Lock
  | .read => l.beginReading a
  | .write => l.leaveQueue (some a)

def giveUp (l : Lock) : Mode → Lock
  | .read => l
  | .write => l.leaveQueue l.writer

theorem contend_cases (l : Lock) (a : Actor) (m : Mode) (expired : Bool) :
    (l.isBlocked m = false ∧ l.contend a m expired = (l.handTo a m, .taken)) ∨
    (l.isBlocked m = true ∧ expired = false ∧ l.contend a m expired = (l.sleep a m, .asleep)) ∨
    (l.isBlocked m = true ∧ expired = true ∧
      l.contend a m expired = (l.giveUp m, .refused (.timedOut m))) := by
  unfold contend
  cases hb : l.isBlocked m with
  | false =>
    left
    cases m with
    | read => exact ⟨rfl, rfl⟩
    | write => exact ⟨rfl, rfl⟩
  | true =>
    right
    cases expired with
    | false => exact Or.inl ⟨rfl, rfl, rfl⟩
    | true =>
      right
      cases m with
      | read => exact ⟨rfl, rfl, rfl⟩
      | write => exact ⟨rfl, rfl, rfl⟩

theorem standing_leaveQueue (hw : 1 ≤ l.waitingWriters) (a : Actor) (w : Option Actor) :
    (l.leaveQueue w).standing = { l.standing.after (.quit a) with writer := w } := by
  refine Standing.ext rfl rfl ?_
  change ((l.waitingWriters - 1 : Nat) : Int) = (l.waitingWriters : Int) - 1
  omega

theorem standing_contend (ha : l.readers.get? a = none)
    (hw : m = .write → 1 ≤ l.waitingWriters) (expired : Bool) :
    (l.contend a m expired).1.standing =
      (waking a m (l.contend a m expired).2).foldl Standing.after l.standing := by
  rcases contend_cases l a m expired with ⟨-, heq⟩ | ⟨-, -, heq⟩ | ⟨-, -, heq⟩
  · rw [heq]
    cases m with
    | read =>
      have hread := standing_insert l a
      rw [depth, ha] at hread
      exact hread
    | write => exact standing_leaveQueue (hw rfl) a (some a)
  · rw [heq]
    rfl
  · rw [heq]
    cases m with
    | read => rfl
    | write => exact standing_leaveQueue (hw rfl) a l.writer

theorem standing_acquireRead (l : Lock) (a : Actor) (expired : Bool) :
    (l.acquireRead a expired).1.standing =
      (entering a .read (l.acquireRead a expired).2).foldl Standing.after l.standing := by
  unfold acquireRead
  by_cases hr : l.readers.contains a = true
  · rw [if_pos hr]
    exact standing_insert l a
  · rw [if_neg hr]
    by_cases hw : l.writer = some a
    · rw [if_pos hw]
      rfl
    · have hnone := contains_eq_false.mp (Bool.eq_false_iff.mpr hr)
      rw [if_neg hw, standing_contend hnone (fun h => by cases h)]
      cases (l.contend a .read expired).2 <;> rfl

theorem standing_acquireWrite (l : Lock) (a : Actor) (expired : Bool) :
    (l.acquireWrite a expired).1.standing =
      (entering a .write (l.acquireWrite a expired).2).foldl Standing.after l.standing := by
  unfold acquireWrite
  by_cases hr : l.readers.contains a = true
  · rw [if_pos hr]
    rfl
  · rw [if_neg hr]
    by_cases hw : l.writer = some a
    · rw [if_pos hw]
      rfl
    · rw [if_neg hw]
      have hjoined := standing_contend
        (l := { l with waitingWriters := l.waitingWriters + 1 }) (m := .write)
        (contains_eq_false.mp (Bool.eq_false_iff.mpr hr)) (fun _ => Nat.le_add_left 1 _) expired
      have hundone : (l.waitingWriters : Int) + 1 - 1 = l.waitingWriters := by omega
      rw [hjoined]
      -- who joins the queue and quits it at once has not moved
      cases ({ l with waitingWriters := l.waitingWriters + 1 }.contend a .write expired).2 with
      | asleep => rfl
      | taken => exact Standing.ext rfl rfl hundone
      | refused f => exact Standing.ext rfl rfl hundone

theorem standing_releaseRead (h : l.releaseRead a = .ok l') :
    l'.standing = l.standing.after (.give a .read) := by
  unfold releaseRead at h
  cases hn : l.readers.get? a with
  | none =>
    rw [hn] at h
    cases h
  | some n =>
    have hdepth : l.depth a = n := by rw [depth, hn, Option.getD_some]
    rw [hn] at h
    simp only at h
    split at h
    · obtain rfl := Except.ok.inj h
      refine Standing.ext (funext fun b => ?_) rfl rfl
      refine (depth_insert l a b (n - 1)).trans ?_
      change _ = if a = b then l.depth b - 1 else l.depth b
      by_cases hab : a = b
      · rw [if_pos hab, if_pos hab, ← hab, hdepth]
      · rw [if_neg hab, if_neg hab]
    · rename_i hlt
      have herase : { l with readers := l.readers.erase a }.standing =
          l.standing.after (.give a .read) := by
        refine Standing.ext (funext fun b => ?_) rfl rfl
        refine (depth_erase l a b).trans ?_
        change _ = if a = b then l.depth b - 1 else l.depth b
        by_cases hab : a = b
        · rw [if_pos hab, if_pos hab, ← hab, hdepth]
          omega
        · rw [if_neg hab, if_neg hab]
      obtain rfl := Except.ok.inj h
      split
      · exact herase
      · exact herase

theorem standing_release (h : l.release a m = .ok l') :
    l'.standing = l.standing.after (.give a m) := by
  cases m with
  | read => exact standing_releaseRead h
  | write =>
    rw [release, releaseWrite] at h
    split at h
    · obtain rfl := Except.ok.inj h
      rfl
    · cases h

/-- One event changes the standing by the moves that are made in it. -/
theorem standing_next (hq : Queued 0 l) (e : Event) :
    (l.next e).1.standing = (l.moves e).foldl Standing.after l.standing := by
  cases e with
  | enter a m expired =>
    rw [next, moves]
    by_cases ha : l.isAsleep a = true
    · rw [if_pos ha, if_pos ha]
      rfl
    · rw [if_neg ha, if_neg ha]
      cases m with
      | read => exact standing_acquireRead l a expired
      | write => exact standing_acquireWrite l a expired
  | wake a expired =>
    rw [next, moves]
    cases hf : l.sleepers.find? (·.actor = a) with
    | none => rfl
    | some s =>
      have hs := List.mem_of_find?_eq_some hf
      obtain rfl : s.actor = a := by simpa using List.find?_some hf
      have hwaiting : s.mode = .write → 1 ≤ l.waitingWriters := by
        intro hm
        rw [hq.waiting]
        exact List.countP_pos_iff.mpr ⟨s, hs, decide_eq_true hm⟩
      simp only [resume, hf]
      exact standing_contend (l := { l with sleepers := l.sleepers.erase s }) (hq.apart s hs)
        hwaiting expired
  | leave a m =>
    rw [next, moves]
    by_cases ha : l.isAsleep a = true
    · rw [if_pos ha, if_pos ha]
      rfl
    · rw [if_neg ha, if_neg ha]
      cases hr : l.release a m with
      | ok l' => exact standing_release hr
      | error f => rfl
  | stir => rfl

/-- The standing of a lock is its earlier standing with the moves made since. -/
theorem standing_after (hq : Queued 0 l) (es : List Event) :
    (l.after es).standing = (l.movesOf es).foldl Standing.after l.standing := by
  induction es generalizing l with
  | nil => rfl
  | cons e es ih =>
    rw [movesOf, List.foldl_append, ← standing_next hq e]
    exact ih (hq.next e)

theorem movesOf_append (l : Lock) (es fs : List Event) :
    l.movesOf (es ++ fs) = l.movesOf es ++ (l.after es).movesOf fs := by
  induction es generalizing l with
  | nil => rfl
  | cons e es ih =>
    rw [List.cons_append, movesOf, movesOf, ih, List.append_assoc]
    rfl

theorem foldl_after_shift (moves : List Move) (s : Standing) (n : Int) :
    moves.foldl Standing.after { s with waiting := s.waiting + n } =
      { moves.foldl Standing.after s with
        waiting := (moves.foldl Standing.after s).waiting + n } := by
  induction moves generalizing s with
  | nil => rfl
  | cons move moves ih =>
    rw [List.foldl_cons, List.foldl_cons, ← ih]
    congr 1
    cases move with
    | join a => exact Standing.ext rfl rfl (Int.add_right_comm ..)
    | quit a => exact Standing.ext rfl rfl (by simp only [Standing.after]; omega)
    | take a m => cases m <;> rfl
    | give a m => cases m <;> rfl

theorem foldl_join_quit (moves : List Move) (s : Standing) (a : Actor) :
    (moves.foldl Standing.after (s.after (.join a))).after (.quit a) =
      moves.foldl Standing.after s := by
  have hshift : moves.foldl Standing.after (s.after (.join a)) =
      { moves.foldl Standing.after s with
        waiting := (moves.foldl Standing.after s).waiting + 1 } := foldl_after_shift moves s 1
  rw [hshift]
  exact Standing.ext rfl rfl (Int.add_sub_cancel ..)

theorem Balanced.contains_iff {h : List Deed} (hb : Balanced h l) (a : Actor) :
    l.readers.contains a = true ↔ l.depth a ≠ 0 := by
  rw [Table.contains, depth]
  cases hn : l.readers.get? a with
  | none => simp
  | some n =>
    have hpos := hb.positive hn
    simp
    omega

section Agree

variable {ho hl : List Deed} (hbo : Balanced ho o) (hbl : Balanced hl l)
  (h : o.standing = l.standing)
include hbo hbl h

theorem contains_of_standing (a : Actor) : o.readers.contains a = l.readers.contains a := by
  have hdepth : o.depth a = l.depth a := congrFun (congrArg Standing.depth h) a
  rw [Bool.eq_iff_iff, hbo.contains_iff, hbl.contains_iff, hdepth]

theorem isBlocked_of_standing (m : Mode) : o.isBlocked m = l.isBlocked m := by
  have hwriter : o.writer = l.writer := congrArg Standing.writer h
  have hwaiting : (o.waitingWriters : Int) = l.waitingWriters := congrArg Standing.waiting h
  cases m with
  | read =>
    rw [isBlocked, isBlocked, hwriter, Int.ofNat_inj.mp hwaiting]
  | write =>
    have hfree : ∀ a, o.readers.get? a = none ↔ l.readers.get? a = none := fun a => by
      rw [← contains_eq_false, ← contains_eq_false, contains_of_standing hbo hbl h a]
    rw [Bool.eq_iff_iff, ← not_iff_not, Bool.not_eq_true, Bool.not_eq_true, isBlocked_write,
      isBlocked_write, hwriter]
    simp only [hfree]

/-- What becomes of an attempt that begins now is decided by the standing. -/
theorem acquire_of_standing (a : Actor) (m : Mode) (expired : Bool) :
    (o.acquire a m expired).2 = (l.acquire a m expired).2 := by
  have hwriter : o.writer = some a ↔ l.writer = some a :=
    iff_of_eq (congrArg (fun x : Standing => x.writer = some a) h)
  have hcontend : ∀ {o l : Lock}, o.isBlocked m = l.isBlocked m →
      (o.contend a m expired).2 = (l.contend a m expired).2 := by
    intro o l hb
    unfold contend
    rw [hb]
    split <;> rfl
  have hcontains := contains_of_standing hbo hbl h a
  have hblocked := isBlocked_of_standing hbo hbl h m
  cases m with
  | read =>
    simp only [acquire, acquireRead, hcontains, hwriter]
    split
    · rfl
    · split
      · rfl
      · exact hcontend hblocked
  | write =>
    simp only [acquire, acquireWrite, hcontains, hwriter]
    split
    · rfl
    · split
      · rfl
      · exact hcontend hblocked

end Agree

end Phrasebook.Lock
