import Phrasebook.Lock

/-!
# Sessions of a lock

Any number of actors use one lock. What an actor does to the lock between two sleeps is one event,
because no other actor gets in between. A sleeper may wake at any time, whether it was notified,
its time is up or there is no reason, so every order of starting, waking, giving up and releasing
is a list of events. An event that its actor cannot bring about, because it sleeps or does not,
changes nothing.
-/

namespace Phrasebook

namespace Table

variable {κ α : Type} [DecidableEq κ]

theorem size_eq_zero_iff {t : Table κ α} : t.size = 0 ↔ ∀ k, t.get? k = none := by
  constructor
  · intro h k
    have hnil : t.entries = [] := List.eq_nil_of_length_eq_zero h
    rw [get?, hnil, lookup]
  · intro h
    cases he : t.entries with
    | nil => simp [size, he]
    | cons row rows =>
      have hrow := h row.1
      simp [get?, he, lookup] at hrow

end Table

namespace Lock

inductive Event where
  | enter (actor : Actor) (mode : Mode) (expired : Bool)
  | wake (actor : Actor) (expired : Bool)
  | leave (actor : Actor) (mode : Mode)
  /-- All sleepers are notified though nothing has changed. -/
  | stir
  deriving DecidableEq, Repr

inductive Deed where
  | took (actor : Actor) (mode : Mode)
  | gave (actor : Actor) (mode : Mode)
  deriving DecidableEq, Repr

def settled (actor : Actor) (mode : Mode) (r : Lock × Attempt) : Lock × Option Deed :=
  (r.1, if r.2 = .taken then some (.took actor mode) else none)

def next (l : Lock) : Event → Lock × Option Deed
  | .enter actor mode expired =>
    if l.isAsleep actor then (l, none) else settled actor mode (l.acquire actor mode expired)
  | .wake actor expired =>
    match l.sleepers.find? (·.actor = actor) with
    | none => (l, none)
    | some s => settled actor s.mode (l.resume actor expired)
  | .leave actor mode =>
    if l.isAsleep actor then (l, none)
    else
      match l.release actor mode with
      | .ok l' => (l', some (.gave actor mode))
      | .error _ => (l, none)
  | .stir => (l.notifyAll, none)

/-- The lock after a session that starts with a free one, and what was done to it, in order. -/
def session (events : List Event) : Lock × List Deed :=
  events.foldl (fun r e => ((r.1.next e).1, r.2 ++ (r.1.next e).2.toList)) (free, [])

theorem session_snoc (events : List Event) (e : Event) :
    session (events ++ [e]) =
      (((session events).1.next e).1,
        (session events).2 ++ ((session events).1.next e).2.toList) := by
  simp [session]

variable {l l' : Lock} {a : Actor} {m : Mode} {n : Nat} {d : Option Deed} {s : Sleeper}

/-- How many writers wait who are awake: the one that contends, if it wants to write. -/
def inside : Mode → Nat
  | .read => 0
  | .write => 1

/-- All that an actor who contends for the lock can do. -/
inductive Contends (l : Lock) (a : Actor) : Mode → Option Deed → Lock → Prop
  | reads (h : l.isBlocked .read = false) :
      Contends l a .read (some (.took a .read)) (l.beginReading a)
  | writes (h : l.isBlocked .write = false) :
      Contends l a .write (some (.took a .write)) (l.leaveQueue (some a))
  | stopsReading : Contends l a .read none l
  | stopsWriting : Contends l a .write none (l.leaveQueue l.writer)
  | sleeps {m : Mode} (h : l.isBlocked m = true) : Contends l a m none (l.sleep a m)

/-- All that one event can do to a lock. -/
inductive Step (l : Lock) : Option Deed → Lock → Prop
  | idle : Step l none l
  | again {a : Actor} (h : l.readers.contains a = true) :
      Step l (some (.took a .read)) { l with readers := l.readers.insert a (l.depth a + 1) }
  | enters {a : Actor} {m : Mode} {d : Option Deed} {l' : Lock} (ha : l.isAsleep a = false)
      (hr : l.readers.contains a = false)
      (h : Contends { l with waitingWriters := l.waitingWriters + inside m } a m d l') : Step l d l'
  | wakes {s : Sleeper} {d : Option Deed} {l' : Lock} (hs : s ∈ l.sleepers)
      (h : Contends { l with sleepers := l.sleepers.erase s } s.actor s.mode d l') : Step l d l'
  | readsOn {a : Actor} {n : Nat} (h : l.readers.get? a = some n) (hn : 1 < n) :
      Step l (some (.gave a .read)) { l with readers := l.readers.insert a (n - 1) }
  | readsNoMore {a : Actor} {n : Nat} (h : l.readers.get? a = some n) (hn : n ≤ 1)
      (hl : 0 < (l.readers.erase a).size) :
      Step l (some (.gave a .read)) { l with readers := l.readers.erase a }
  | lastReads {a : Actor} {n : Nat} (h : l.readers.get? a = some n) (hn : n ≤ 1) :
      Step l (some (.gave a .read)) (notifyAll { l with readers := l.readers.erase a })
  | writesNoMore {a : Actor} (h : l.writer = some a) :
      Step l (some (.gave a .write)) (notifyAll { l with writer := none })
  | stirred : Step l none l.notifyAll

theorem contends_contend (l : Lock) (a : Actor) (m : Mode) (expired : Bool) :
    Contends l a m (settled a m (l.contend a m expired)).2
      (settled a m (l.contend a m expired)).1 := by
  unfold contend
  cases hb : l.isBlocked m with
  | false =>
    cases m with
    | read => exact .reads hb
    | write => exact .writes hb
  | true =>
    cases expired with
    | false => exact .sleeps hb
    | true =>
      cases m with
      | read => exact .stopsReading
      | write => exact .stopsWriting

theorem step_enter (l : Lock) (a : Actor) (m : Mode) (expired : Bool) :
    Step l (l.next (.enter a m expired)).2 (l.next (.enter a m expired)).1 := by
  rw [next]
  by_cases ha : l.isAsleep a = true
  · rw [if_pos ha]
    exact .idle
  · rw [if_neg ha]
    have ha : l.isAsleep a = false := by simpa using ha
    by_cases hr : l.readers.contains a = true
    · cases m with
      | read =>
        rw [acquire, acquireRead, if_pos hr]
        exact .again hr
      | write =>
        rw [acquire, acquireWrite, if_pos hr]
        exact .idle
    · have hr' : l.readers.contains a = false := by simpa using hr
      by_cases hw : l.writer = some a
      · cases m with
        | read =>
          rw [acquire, acquireRead, if_neg hr, if_pos hw]
          exact .idle
        | write =>
          rw [acquire, acquireWrite, if_neg hr, if_pos hw]
          exact .idle
      · cases m with
        | read =>
          rw [acquire, acquireRead, if_neg hr, if_neg hw]
          exact .enters ha hr' (contends_contend _ _ _ _)
        | write =>
          rw [acquire, acquireWrite, if_neg hr, if_neg hw]
          exact .enters ha hr' (contends_contend _ _ _ _)

theorem step_wake (l : Lock) (a : Actor) (expired : Bool) :
    Step l (l.next (.wake a expired)).2 (l.next (.wake a expired)).1 := by
  rw [next]
  cases hf : l.sleepers.find? (·.actor = a) with
  | none => exact .idle
  | some s =>
    have hs := List.mem_of_find?_eq_some hf
    obtain rfl : s.actor = a := by simpa using List.find?_some hf
    simp only [resume, hf]
    exact .wakes hs (contends_contend _ _ _ _)

theorem step_leave (l : Lock) (a : Actor) (m : Mode) :
    Step l (l.next (.leave a m)).2 (l.next (.leave a m)).1 := by
  rw [next]
  by_cases ha : l.isAsleep a = true
  · rw [if_pos ha]
    exact .idle
  · rw [if_neg ha]
    cases m with
    | read =>
      rw [release, releaseRead]
      cases hg : l.readers.get? a with
      | none => exact .idle
      | some n =>
        by_cases hn : 1 < n
        · simp only [if_pos hn]
          exact .readsOn hg hn
        · simp only [if_neg hn]
          by_cases hz : (l.readers.erase a).size = 0
          · rw [if_pos hz]
            exact .lastReads hg (by omega)
          · rw [if_neg hz]
            exact .readsNoMore hg (by omega) (by omega)
    | write =>
      rw [release, releaseWrite]
      by_cases hw : l.writer = some a
      · rw [if_pos hw]
        exact .writesNoMore hw
      · rw [if_neg hw]
        exact .idle

theorem step_next (l : Lock) (e : Event) : Step l (l.next e).2 (l.next e).1 := by
  cases e with
  | enter a m expired => exact step_enter l a m expired
  | wake a expired => exact step_wake l a expired
  | leave a m => exact step_leave l a m
  | stir => exact .stirred

end Lock

end Phrasebook
