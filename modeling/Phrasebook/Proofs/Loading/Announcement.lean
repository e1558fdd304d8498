import Phrasebook.Proofs.Loading.Turn

/-!
# Announcements

An announcement takes the turns of a load one after the other, and the loads that are settled in
the middle of a turn are announced there. Every one of them was pending before, so the bound on the
nesting is never reached and `announce` satisfies its own equation. `fanout_induction` is the
induction on the pending loads, and on the turns that are left, that all later proofs use.
-/

namespace Phrasebook

def Load.turns (l : Load Success Failure) : Option Fault → List Coordinator.Turn
  | none => l.onSuccess.map .success
  | some f => l.onError.map (.failure f)

def Load.unhandled (l : Load Success Failure) (outcome : Option Fault) : Option Fault :=
  if l.isUnobserved then outcome else none

namespace Coordinator

def forewarn (c : Coordinator) (id : Nat) : Option Fault → Coordinator
  | none => c
  | some f =>
    if (c.loadOf id).isUnobserved then c.note (.unobserved (c.loadOf id).tag f.message) else c

def size (c : Coordinator) : Nat := c.desk.store.pending.size

theorem forewarn_cases (c : Coordinator) (id : Nat) (outcome : Option Fault) :
    ∃ n, c.forewarn id outcome = { c with desk := { c.desk with notices := n } } := by
  unfold forewarn
  split
  · exact ⟨_, rfl⟩
  · split
    · exact ⟨_, rfl⟩
    · exact ⟨_, rfl⟩

@[simp] theorem client_forewarn (c : Coordinator) (id : Nat) (outcome : Option Fault) :
    (c.forewarn id outcome).client = c.client := by
  obtain ⟨n, hn⟩ := forewarn_cases c id outcome
  rw [hn]

theorem forewarn_sound {c : Coordinator} (hs : c.desk.Sound) (id : Nat) (outcome : Option Fault) :
    (c.forewarn id outcome).desk.Sound := by
  obtain ⟨n, hn⟩ := forewarn_cases c id outcome
  rw [hn]
  exact ⟨hs.store, hs.shelved, hs.awaits⟩

theorem forewarn_later (c : Coordinator) (id : Nat) (outcome : Option Fault) :
    Later c (c.forewarn id outcome) := by
  obtain ⟨n, hn⟩ := forewarn_cases c id outcome
  have h := Later.refl c
  rw [hn]
  exact ⟨⟨h.desk.service, h.desk.calls, h.desk.shelf, h.desk.contains, h.desk.length, h.desk.load,
    h.desk.pending, h.desk.size⟩, h.client⟩

theorem forEach_map {σ τ : Type} (act : Coordinator → τ → Step) (g : σ → τ) (c : Coordinator)
    (ts : List σ) : forEach act c (ts.map g) = forEach (fun c t => act c (g t)) c ts := by
  induction ts generalizing c with
  | nil => rfl
  | cons t ts ih => simp only [List.map_cons, forEach, ih]

def announceWith (announce : Announce) : Announce := fun c id outcome =>
  let (c', raised) :=
    forEach (take announce) (c.forewarn id outcome) ((c.loadOf id).turns outcome)
  (c', gather ((c.loadOf id).unhandled outcome) raised)

theorem announceWithin_succ (depth : Nat) :
    announceWithin (depth + 1) = announceWith (announceWithin depth) := by
  funext c id outcome
  cases outcome with
  | none =>
    simp [announceWith, announceWithin, Load.turns, Load.unhandled, forewarn, forEach_map, take]
  | some f =>
    simp [announceWith, announceWithin, Load.turns, Load.unhandled, forewarn, forEach_map, take]

/-- Announcing keeps a desk sound, and only settles loads and installs lexicons. -/
def Announce.Keeps (announce : Announce) : Prop :=
  ∀ {c : Coordinator} (id : Nat) (outcome : Option Fault), c.desk.Sound →
    (announce c id outcome).1.desk.Sound ∧ Later c (announce c id outcome).1

theorem report_keeps {c : Coordinator} (hs : c.desk.Sound) (place : Nat) (r : Option Reporter) :
    (report c place r).1.desk.Sound ∧ Later c (report c place r).1 := by
  obtain ⟨hd, hc⟩ := report_serves (c := c) place r
  exact ⟨hd ▸ hs, hd ▸ .refl _, hc.later⟩

theorem reportAfter_keeps {c : Coordinator} {s : Step} (hs : s.1.desk.Sound) (hl : Later c s.1)
    (place : Nat) (r : Option Reporter) :
    (reportAfter place r s).1.desk.Sound ∧ Later c (reportAfter place r s).1 := by
  rcases s with ⟨c', _ | f⟩
  · obtain ⟨hs', hl'⟩ := report_keeps hs place r
    exact ⟨hs', hl.trans hl'⟩
  · exact ⟨hs, hl⟩

theorem Aside.keeps {c c' : Coordinator} {t : Turn} (h : Aside c t c') (hs : c.desk.Sound) :
    c'.desk.Sound ∧ Later c c' := by
  obtain ⟨n, hn⟩ := h.desk
  have hd := Desk.Later.refl c.desk
  refine ⟨?_, ?_, h.client.later⟩
  · rw [hn]
    exact ⟨hs.store, hs.shelved, hs.awaits⟩
  · rw [hn]
    exact ⟨hd.service, hd.calls, hd.shelf, hd.contains, hd.length, hd.load, hd.pending, hd.size⟩

theorem Taken.keeps {c : Coordinator} {t : Turn} {act : Announce → Step} (h : Taken c t act)
    (hs : c.desk.Sound) {announce : Announce} (ha : announce.Keeps) :
    (act announce).1.desk.Sound ∧ Later c (act announce).1 := by
  cases h with
  | aside h => exact h.keeps hs
  | @ends c' id outcome _ h =>
    obtain ⟨hs', hl⟩ := ha id outcome h.sound
    exact ⟨hs', h.later.trans hl⟩
  | puts _ h =>
    obtain ⟨hs', hl⟩ := report_keeps h.sound c.desk.shelf.length _
    exact ⟨hs', h.later.trans hl⟩
  | @installs c' id l r _ h =>
    obtain ⟨hs', hl⟩ := ha id none h.sound
    exact reportAfter_keeps hs' (h.later.trans hl) _ r

theorem forEach_keeps {announce : Announce} (ha : announce.Keeps) {c : Coordinator}
    (hs : c.desk.Sound) (ts : List Turn) :
    (forEach (take announce) c ts).1.desk.Sound ∧ Later c (forEach (take announce) c ts).1 := by
  induction ts generalizing c with
  | nil => exact ⟨hs, .refl c⟩
  | cons t ts ih =>
    obtain ⟨hs₁, hl₁⟩ := (taken hs t).keeps hs ha
    obtain ⟨hs₂, hl₂⟩ := ih hs₁
    exact ⟨hs₂, hl₁.trans hl₂⟩

theorem announceWithin_keeps (depth : Nat) : Announce.Keeps (announceWithin depth) := by
  induction depth with
  | zero => exact fun id outcome hs => ⟨hs, .refl _⟩
  | succ depth ih =>
    intro c id outcome hs
    rw [announceWithin_succ]
    obtain ⟨hs', hl⟩ := forEach_keeps ih (forewarn_sound hs id outcome) ((c.loadOf id).turns outcome)
    exact ⟨hs', (forewarn_later c id outcome).trans hl⟩

theorem announce_keeps : Announce.Keeps announce :=
  fun id outcome hs => announceWithin_keeps _ id outcome hs

theorem take_keeps {c : Coordinator} (hs : c.desk.Sound) (t : Turn) :
    (take announce c t).1.desk.Sound ∧ Later c (take announce c t).1 :=
  (taken hs t).keeps hs announce_keeps

theorem Ends.size {c c' : Coordinator} {id : Nat} {outcome : Option Fault}
    (h : Ends c id outcome c') : c'.size < c.size := h.settles.size

theorem Taken.congr {c : Coordinator} {t : Turn} {act : Announce → Step} (h : Taken c t act)
    {a b : Announce}
    (hab : ∀ {c'} id outcome, c'.desk.Sound → c'.size < c.size → a c' id outcome = b c' id outcome) :
    act a = act b := by
  cases h with
  | aside => rfl
  | ends _ h => exact hab _ _ h.sound h.size
  | puts => rfl
  | installs _ h => simp only [hab _ _ h.sound h.size]

/-- Only announcements after a load was settled matter to a list of turns. -/
theorem forEach_congr {a b : Announce} {n : Nat} (ha : a.Keeps)
    (hab : ∀ {c'} id outcome, c'.desk.Sound → c'.size < n → a c' id outcome = b c' id outcome)
    {c : Coordinator} (hs : c.desk.Sound) (hn : c.size ≤ n) (ts : List Turn) :
    forEach (take a) c ts = forEach (take b) c ts := by
  induction ts generalizing c with
  | nil => rfl
  | cons t ts ih =>
    have h := taken hs t
    have heq : take a c t = take b c t :=
      h.congr fun id outcome hs' hlt => hab id outcome hs' (Nat.lt_of_lt_of_le hlt hn)
    obtain ⟨hs₁, hl₁⟩ := h.keeps hs ha
    simp only [forEach, ← heq]
    rw [ih hs₁ (Nat.le_trans hl₁.desk.size hn)]

/-- The bound on the nesting does not matter once it exceeds the number of pending loads. -/
theorem announceWithin_congr {d e : Nat} {c : Coordinator} (hs : c.desk.Sound) (hd : c.size < d)
    (he : c.size < e) (id : Nat) (outcome : Option Fault) :
    announceWithin d c id outcome = announceWithin e c id outcome := by
  induction d generalizing c e id outcome with
  | zero => exact absurd hd (Nat.not_lt_zero _)
  | succ d ih =>
    obtain ⟨e, rfl⟩ := Nat.exists_eq_succ_of_ne_zero (Nat.ne_zero_of_lt he)
    rw [announceWithin_succ, announceWithin_succ]
    have hsize := (forewarn_later c id outcome).desk.size
    have heq := forEach_congr (b := announceWithin e) (n := c.size) (announceWithin_keeps d)
      (fun id' outcome' hs' hlt => ih hs' (by omega) (by omega) id' outcome')
      (forewarn_sound hs id outcome) hsize ((c.loadOf id).turns outcome)
    simp only [announceWith, heq]

def fanout (c : Coordinator) (ts : List Turn) : Coordinator × List Fault :=
  forEach (take announce) c ts

theorem fanout_cons (c : Coordinator) (t : Turn) (ts : List Turn) :
    fanout c (t :: ts) =
      ((fanout (take announce c t).1 ts).1,
        (take announce c t).2.toList ++ (fanout (take announce c t).1 ts).2) := rfl

theorem announce_eq {c : Coordinator} (hs : c.desk.Sound) (id : Nat) (outcome : Option Fault) :
    announce c id outcome =
      ((fanout (c.forewarn id outcome) ((c.loadOf id).turns outcome)).1,
        gather ((c.loadOf id).unhandled outcome)
          (fanout (c.forewarn id outcome) ((c.loadOf id).turns outcome)).2) := by
  have hsize := (forewarn_later c id outcome).desk.size
  have heq := forEach_congr (b := announce) (n := c.size) (announceWithin_keeps c.size)
    (fun id' outcome' hs' hlt => announceWithin_congr hs' hlt (Nat.lt_succ_self _) id' outcome')
    (forewarn_sound hs id outcome) hsize ((c.loadOf id).turns outcome)
  have hsucc : announce c id outcome = announceWithin (c.size + 1) c id outcome := rfl
  rw [hsucc, announceWithin_succ]
  simp only [announceWith, fanout, heq]

/-- To prove something of all turns that are taken, prove it of no turns, and of one turn before
others, where it may be assumed of every announcement with fewer pending loads. -/
theorem fanout_induction {motive : Coordinator → List Turn → Prop}
    (nil : ∀ {c}, c.desk.Sound → motive c [])
    (cons : ∀ {c t ts}, c.desk.Sound →
      (∀ {c' : Coordinator} id outcome, c'.desk.Sound → c'.size < c.size →
        motive (c'.forewarn id outcome) ((c'.loadOf id).turns outcome)) →
      motive (take announce c t).1 ts → motive c (t :: ts))
    {c : Coordinator} (hs : c.desk.Sound) (ts : List Turn) : motive c ts := by
  suffices h : ∀ n, ∀ {c}, c.desk.Sound → c.size ≤ n → ∀ ts, motive c ts from
    h c.size hs (Nat.le_refl _) ts
  intro n
  induction n using Nat.strongRecOn with
  | ind n ihn =>
    intro c hs hn ts
    induction ts generalizing c with
    | nil => exact nil hs
    | cons t ts ih =>
      obtain ⟨hs₁, hl₁⟩ := take_keeps hs t
      refine cons hs ?_ (ih hs₁ (Nat.le_trans hl₁.desk.size hn))
      intro c' id outcome hs' hlt
      have hsize := (forewarn_later c' id outcome).desk.size
      exact ihn c'.size (Nat.lt_of_lt_of_le hlt hn) (forewarn_sound hs' id outcome) hsize _

end Coordinator

end Phrasebook
