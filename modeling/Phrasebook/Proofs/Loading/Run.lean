import Phrasebook.Proofs.Loading.Step

/-!
# Runs

What steps preserve, and what becomes of a waiter over a whole run. A `Driver` is anything that
takes steps with a coordinator, so that runs of a coordinator and runs of what owns one are treated
together.
-/

namespace Phrasebook

namespace Coordinator

/-- The waiters of all loads hold tickets in `H` at most. -/
def Confines (H : Ticket → Prop) (c : Coordinator) : Prop :=
  ∀ id, ∀ w ∈ (c.loadOf id).waiters, ∀ k, w.Holds k → H k

section Serves

variable {H : Ticket → Prop} {c d : Coordinator}

theorem Confines.later (h : Confines H c) (hl : Later c d) : Confines H d := by
  intro id w hw
  rw [loadOf_eq, (hl.desk.load id).waiters] at hw
  exact h id w hw

theorem Confines.turns (h : Confines H c) (id : Nat) (outcome : Option Fault) :
    ∀ t ∈ (c.loadOf id).turns outcome, ∀ k, t.Holds k → H k := by
  intro t ht k hk
  rw [Load.turns_eq] at ht
  obtain ⟨w, hw, hwt⟩ := List.mem_filterMap.mp ht
  exact h id w hw k (Waiter.holds_turn hwt hk)

theorem serves_of_taken {t : Turn} {act : Announce → Step} (h : Taken c t act)
    (ht : ∀ k, t.Holds k → H k)
    (ih : ∀ {d : Coordinator} id outcome, d.desk.Sound → d.size < c.size → Later c d →
      d.client.Serves H (announce d id outcome).1.client) :
    c.client.Serves H (act announce).1.client := by
  have hreport : ∀ {l r}, t.definition? c = some (l, r) → ∀ (d : Coordinator) place,
      d.client.Serves H (report d place r).1.client := by
    intro l r hdef d place
    exact (report_serves place r).2.mono fun k hr => ht k (Turn.holds_of_definition? hdef hr)
  cases h with
  | aside h => exact h.client.mono ht
  | @ends d id outcome _ h =>
    have hserves := ih id outcome h.sound h.size h.later
    rwa [h.client] at hserves
  | @puts d l r hdef h =>
    have hserves := hreport hdef d c.desk.shelf.length
    rwa [h.client] at hserves
  | @installs d id l r hdef h =>
    have hserves := ih id none h.sound h.size h.later
    rw [h.client] at hserves
    change c.client.Serves H (reportAfter _ r (announce d id none)).1.client
    generalize announce d id none = s at hserves
    rcases s with ⟨e, _ | f⟩
    · exact hserves.trans (hreport hdef e _)
    · exact hserves

theorem fanout_serves (hs : c.desk.Sound) (ts : List Turn) (hc : Confines H c)
    (ht : ∀ t ∈ ts, ∀ k, t.Holds k → H k) : c.client.Serves H (fanout c ts).1.client := by
  refine fanout_induction (motive := fun c ts => Confines H c →
    (∀ t ∈ ts, ∀ k, t.Holds k → H k) → c.client.Serves H (fanout c ts).1.client) ?_ ?_ hs ts hc ht
  · exact fun _ _ _ => .refl _
  · intro c t ts hs ihannounce ih hc ht
    obtain ⟨-, hl⟩ := take_keeps hs t
    have hfirst := serves_of_taken (taken hs t) (ht t List.mem_cons_self) ?_
    · exact hfirst.trans (ih (hc.later hl) fun x hx => ht x (List.mem_cons_of_mem t hx))
    · intro d id outcome hd hsize hld
      have hcd := hc.later hld
      have hserves := ihannounce id outcome hd hsize (hcd.later (forewarn_later d id outcome))
        (hcd.turns id outcome)
      obtain ⟨n, hn⟩ := forewarn_cases d id outcome
      rw [announce_eq hd]
      rw [hn] at hserves ⊢
      exact hserves

theorem announce_serves (hs : c.desk.Sound) (hc : Confines H c) (id : Nat)
    (outcome : Option Fault) : c.client.Serves H (announce c id outcome).1.client := by
  have hserves := fanout_serves (forewarn_sound hs id outcome)
    ((c.loadOf id).turns outcome) (hc.later (forewarn_later c id outcome)) (hc.turns id outcome)
  obtain ⟨n, hn⟩ := forewarn_cases c id outcome
  rw [announce_eq hs]
  rw [hn] at hserves ⊢
  exact hserves

theorem take_serves (hs : c.desk.Sound) (hc : Confines H c) {t : Turn}
    (ht : ∀ k, t.Holds k → H k) : c.client.Serves H (take announce c t).1.client :=
  serves_of_taken (taken hs t) ht fun id outcome hd _ hl =>
    announce_serves hd (hc.later hl) id outcome

end Serves

/-- What holds of a coordinator between any two steps. -/
structure Sound (c : Coordinator) : Prop where
  desk : c.desk.Sound
  issued : Confines (Ticket.Issued c.client) c
  unseen : ∀ {k : Ticket}, ¬ k.Issued c.client → c.client.seen k = ([], none)

section Moves

variable {N : Ticket → Prop} {o : Occasion} {c p : Coordinator} {s : Step} {k : Ticket} {id : Nat}
  {w : Waiter Success Failure}

theorem Sound.prepares (hs : c.Sound) (h : Prepares N o c p) : p.Sound where
  desk := h.sound
  issued id x hx k hk := by
    obtain ⟨new, hnew, hnewN⟩ := h.waiters id
    rw [hnew] at hx
    rcases List.mem_append.mp hx with hx | hx
    · exact h.client.issued (hs.issued id x hx k hk)
    · exact h.issued k (hnewN x hx k hk)
  unseen {k} hk := by
    have hc := hs.unseen fun hi => hk (h.client.issued hi)
    cases k with
    | request r =>
      simp only [Client.seen, Client.log, h.client.events]
      exact hc
    | promise id => simp [Client.seen, List.getElem?_eq_none (Nat.le_of_not_lt hk)]

theorem Sound.queued (hs : c.Sound) {tag : String} {q : Nat} {e : Desk Success Failure}
    (hq : c.desk.Queues tag w q e) (hw : w.onSuccess.Awaits tag)
    (hk : ∀ k, w.Holds k → k.Issued c.client) : Sound { c with desk := e } where
  desk := hq.sound hs.desk hw
  issued id x hx k hh := by
    by_cases he : id = q
    · subst he
      rcases List.mem_append.mp (hq.waiters ▸ hx) with hx | hx
      · exact hs.issued id x hx k hh
      · obtain rfl := List.mem_singleton.mp hx
        exact hk k hh
    · rw [loadOf_eq, hq.other id he] at hx
      exact hs.issued id x hx k hh
  unseen hk := hs.unseen hk

theorem Sound.serves (hs : c.Sound) {d : Coordinator} (hd : d.desk.Sound) (hl : Later c d)
    (h : c.client.Serves (Ticket.Issued c.client) d.client) : d.Sound where
  desk := hd
  issued id x hx k hk := by
    rw [loadOf_eq, (hl.desk.load id).waiters] at hx
    exact h.later.issued.mpr (hs.issued id x hx k hk)
  unseen hk := by
    have hk' := fun hi => hk (h.later.issued.mpr hi)
    exact (h.seen hk').trans (hs.unseen hk')

theorem Move.prepares (h : Move N o c s) (hs : c.Sound) :
    ∃ p, Prepares N o c p ∧ Later p s.1 ∧ s.1.Sound := by
  cases h with
  | @idle p f h => exact ⟨p, h, .refl p, hs.prepares h⟩
  | @turn p t h ht =>
    obtain ⟨hs', hl⟩ := take_keeps h.sound t
    have hp := hs.prepares h
    have hserves := take_serves hp.desk hp.issued fun k hk => h.issued k (ht k hk)
    exact ⟨p, h, hl, hp.serves hs' hl hserves⟩
  | @ends p e id outcome h he =>
    obtain ⟨hs', hl⟩ := announce_keeps id outcome he.sound
    have hl' := he.later.trans hl
    have hp := hs.prepares h
    have hserves := announce_serves he.sound (hp.issued.later he.later) id outcome
    rw [he.client] at hserves
    exact ⟨p, h, hl', hp.serves hs' hl' hserves⟩

theorem Move.unheld (h : Move N o c s) (hN : ¬ N k) (hc : Confines (· ≠ k) c) :
    ∃ p, Prepares N o c p ∧ Confines (· ≠ k) s.1 ∧ s.1.client.seen k = p.client.seen k := by
  have hne : ∀ {j : Ticket}, N j → j ≠ k := fun hj he => hN (he ▸ hj)
  have hconf : ∀ {p}, Prepares N o c p → Confines (· ≠ k) p := by
    intro p h id x hx j hj
    obtain ⟨new, hnew, hnewN⟩ := h.waiters id
    rw [hnew] at hx
    rcases List.mem_append.mp hx with hx | hx
    · exact hc id x hx j hj
    · exact hne (hnewN x hx j hj)
  cases h with
  | @idle p f h => exact ⟨p, h, hconf h, rfl⟩
  | @turn p t h ht =>
    obtain ⟨-, hl⟩ := take_keeps h.sound t
    have hserves := take_serves h.sound (hconf h) fun j hj => hne (ht j hj)
    exact ⟨p, h, (hconf h).later hl, hserves.seen (absurd rfl)⟩
  | @ends p e id outcome h he =>
    obtain ⟨-, hl⟩ := announce_keeps id outcome he.sound
    have hconf' := (hconf h).later he.later
    have hserves := announce_serves he.sound hconf' id outcome
    exact ⟨p, h, hconf'.later hl, (hserves.seen (absurd rfl)).trans (by rw [he.client])⟩

theorem Sole.prepares (hk : Sole c k id w) (h : Prepares N o c p) (hN : ¬ N k) : Sole p k id w where
  here := by
    obtain ⟨pre, post, hw, hother⟩ := hk.here
    obtain ⟨new, hnew, hnewN⟩ := h.waiters id
    refine ⟨pre, post ++ new, by rw [hnew, hw, List.append_assoc, List.cons_append], ?_⟩
    intro x hx
    rw [← List.append_assoc] at hx
    rcases List.mem_append.mp hx with hx | hx
    · exact hother x hx
    · exact fun hh => hN (hnewN x hx k hh)
  elsewhere j hj x hx := by
    obtain ⟨new, hnew, hnewN⟩ := h.waiters j
    rw [hnew] at hx
    rcases List.mem_append.mp hx with hx | hx
    · exact hk.elsewhere j hj x hx
    · exact fun hh => hN (hnewN x hx k hh)

/-- A step does to a load and to the ticket of one of its waiters what one announcement would. -/
theorem Move.fate (h : Move N o c s) (hN : ¬ N k) (hk : Sole c k id w) :
    ∃ p, Prepares N o c p ∧ Later p s.1 ∧ Fate k id w p s.1 s.2.toList := by
  cases h with
  | @idle p f h => exact ⟨p, h, .refl p, .still Iff.rfl rfl⟩
  | @turn p t h ht =>
    obtain ⟨-, hl⟩ := take_keeps h.sound t
    refine ⟨p, h, hl, ?_⟩
    exact fate_of_taken (taken h.sound t) (hk.prepares h hN) (fun hh => hN (ht k hh))
      fun j outcome hd _ => fair (forewarn_sound hd j outcome) _
  | @ends p e j outcome h he =>
    obtain ⟨-, hl⟩ := announce_keeps j outcome he.sound
    refine ⟨p, h, he.later.trans hl, ?_⟩
    exact fate_of_ends (hk.prepares h hN) he (fair (forewarn_sound he.sound j outcome) _)

end Moves

/-- A waiter of a load that can be followed through a run by its ticket. -/
structure Tracks (c : Coordinator) (k : Ticket) (id : Nat) (w : Waiter Success Failure) : Prop where
  sound : c.Sound
  sole : Sole c k id w
  issued : k.Issued c.client
  known : id < c.desk.store.loads.length

theorem tracks_of_queues {c : Coordinator} {tag : String} {w : Waiter Success Failure} {id : Nat}
    {d : Desk Success Failure} {client : Client} {k : Ticket} (hs : c.Sound)
    (hn : c.client.Numbers client) (h : c.desk.Queues tag w id d) (hw : w.onSuccess.Awaits tag)
    (hH : ∀ k, w.Holds k → k.Issued client) (hk : ¬ k.Issued c.client) (hk' : k.Issued client) :
    Tracks ⟨d, client⟩ k id w := by
  have hold : ∀ j, ∀ x ∈ (c.desk.store.load j).waiters, ¬ x.Holds k := by
    intro j x hx hh
    exact hk (hs.issued j x hx k hh)
  have hp : Prepares (Ticket.Issued client) .call c ⟨c.desk, client⟩ :=
    prepares_of_store hs.desk rfl rfl rfl hn (fun _ hk => hk) nofun
  refine ⟨(hs.prepares hp).queued h hw hH, ⟨?_, ?_⟩, hk', (h.length id).mpr (Or.inr rfl)⟩
  · refine ⟨_, [], h.waiters, ?_⟩
    rw [List.append_nil]
    exact hold id
  · intro j hj x hx
    rw [loadOf_eq, h.other j hj] at hx
    exact hold j x hx

end Coordinator

open Coordinator in
/-- Something that takes steps with a coordinator. Tickets that a step queues are new. -/
structure Driver (σ α : Type) where
  view : σ → Coordinator
  act : σ → α → σ × Option Fault
  occasion : α → Occasion
  moves : ∀ s a, (view s).Sound → ∃ N,
    Move N (occasion a) (view s) (view (act s a).1, (act s a).2) ∧
    ∀ k, N k → ¬ k.Issued (view s).client

namespace Driver

open Coordinator

variable {σ α : Type} (d : Driver σ α)

def run (s : σ) (as : List α) : σ := as.foldl (fun s a => (d.act s a).1) s

theorem run_append (s : σ) (as bs : List α) : d.run s (as ++ bs) = d.run (d.run s as) bs :=
  List.foldl_append

def step (s : σ) (a : α) : Step := (d.view (d.act s a).1, (d.act s a).2)

variable {d} {s : σ} {k : Ticket} {id : Nat} {w : Waiter Success Failure}

theorem sound_step (hs : (d.view s).Sound) (a : α) : (d.view (d.act s a).1).Sound := by
  obtain ⟨N, hm, -⟩ := d.moves s a hs
  obtain ⟨-, -, -, h⟩ := hm.prepares hs
  exact h

theorem sound_run (hs : (d.view s).Sound) (as : List α) : (d.view (d.run s as)).Sound := by
  induction as generalizing s with
  | nil => exact hs
  | cons a as ih => exact ih (sound_step hs a)

theorem service_step (hs : (d.view s).Sound) (a : α) :
    (d.view (d.act s a).1).desk.service = (d.view s).desk.service := by
  obtain ⟨N, hm, -⟩ := d.moves s a hs
  obtain ⟨p, hp, hl, -⟩ := hm.prepares hs
  exact hl.desk.service.trans hp.service

/-- What preparations and settlements preserve holds throughout a run. -/
theorem preserved_run {P : Coordinator → Prop}
    (hprepares : ∀ {N o c p}, P c → Prepares N o c p → P p)
    (hlater : ∀ {c e}, P c → Later c e → P e) (hs : (d.view s).Sound) (h : P (d.view s))
    (as : List α) : P (d.view (d.run s as)) := by
  induction as generalizing s with
  | nil => exact h
  | cons a as ih =>
    obtain ⟨N, hm, -⟩ := d.moves s a hs
    obtain ⟨p, hp, hl, -⟩ := hm.prepares hs
    exact ih (sound_step hs a) (hlater (hprepares h hp) hl)

theorem service_run (hs : (d.view s).Sound) (as : List α) :
    (d.view (d.run s as)).desk.service = (d.view s).desk.service :=
  preserved_run (P := fun c => c.desk.service = (d.view s).desk.service)
    (fun h hp => hp.service.trans h) (fun h hl => hl.desk.service.trans h) hs rfl as

theorem unheld_step (hs : (d.view s).Sound) (hk : k.Issued (d.view s).client)
    (hc : Confines (· ≠ k) (d.view s)) (a : α) :
    k.Issued (d.view (d.act s a).1).client ∧ Confines (· ≠ k) (d.view (d.act s a).1) ∧
      (d.view (d.act s a).1).client.seen k = (d.view s).client.seen k := by
  obtain ⟨N, hm, hN⟩ := d.moves s a hs
  have hNk : ¬ N k := fun hn => hN k hn hk
  obtain ⟨p, hp, hconf, hseen⟩ := hm.unheld hNk hc
  obtain ⟨q, hq, hl, -⟩ := hm.prepares hs
  exact ⟨hl.client.issued.mpr (hq.client.issued hk), hconf, hseen.trans (hp.client.seen hk)⟩

theorem unheld_run (hs : (d.view s).Sound) (hk : k.Issued (d.view s).client)
    (hc : Confines (· ≠ k) (d.view s)) (as : List α) :
    k.Issued (d.view (d.run s as)).client ∧ Confines (· ≠ k) (d.view (d.run s as)) ∧
      (d.view (d.run s as)).client.seen k = (d.view s).client.seen k := by
  induction as generalizing s with
  | nil => exact ⟨hk, hc, rfl⟩
  | cons a as ih =>
    obtain ⟨hk', hc', hseen⟩ := unheld_step hs hk hc a
    obtain ⟨hk'', hc'', hseen'⟩ := ih (sound_step hs a) hk' hc'
    exact ⟨hk'', hc'', hseen'.trans hseen⟩

theorem tracks_step (h : Tracks (d.view s) k id w) (a : α) :
    Tracks (d.view (d.act s a).1) k id w ∧
    ((d.view (d.act s a).1).loadOf id).tag = ((d.view s).loadOf id).tag ∧
    (((d.view s).loadOf id).standing ≠ .waiting →
      ((d.view (d.act s a).1).loadOf id).standing = ((d.view s).loadOf id).standing) ∧
    ∃ N p, Prepares N (d.occasion a) (d.view s) p ∧ Sole p k id w ∧
      Later p (d.view (d.act s a).1) ∧
      Fate k id w p (d.view (d.act s a).1) (d.step s a).2.toList := by
  obtain ⟨N, hm, hN⟩ := d.moves s a h.sound
  have hk : ¬ N k := fun hn => hN k hn h.issued
  obtain ⟨p, hp, hl, hj⟩ := hm.fate hk h.sole
  have hload := hl.desk.load id
  have hsole := h.sole.prepares hp hk
  refine ⟨⟨sound_step h.sound a, hsole.later hl, ?_, ?_⟩, ?_, ?_, N, p, hp, hsole, hl, hj⟩
  · exact hl.client.issued.mpr (hp.client.issued h.issued)
  · rw [hl.desk.length]
    exact Nat.lt_of_lt_of_le h.known hp.length
  · exact hload.tag.trans (hp.tag h.known)
  · intro hn
    have hstand := hp.standing h.known
    exact (hload.standing (hstand ▸ hn)).trans hstand

theorem tracks_run (h : Tracks (d.view s) k id w) (as : List α) :
    Tracks (d.view (d.run s as)) k id w := by
  induction as generalizing s with
  | nil => exact h
  | cons a as ih => exact ih (tracks_step h a).1

theorem gone_run (h : Tracks (d.view s) k id w) (hc : ¬ (d.view s).desk.store.isCurrent id)
    (as : List α) :
    ¬ (d.view (d.run s as)).desk.store.isCurrent id ∧
    (d.view (d.run s as)).client.seen k = (d.view s).client.seen k ∧
    ((d.view (d.run s as)).loadOf id).standing = ((d.view s).loadOf id).standing := by
  induction as generalizing s with
  | nil => exact ⟨hc, rfl, rfl⟩
  | cons a as ih =>
    obtain ⟨ht, -, hstand, N, p, hp, -, hl, hj⟩ := tracks_step h a
    have hcp : ¬ p.desk.store.isCurrent id := fun hh => hc ((hp.current h.known).mp hh)
    cases hj with
    | still hiff hv =>
      obtain ⟨hc', hv', hs'⟩ := ih ht fun hh => hcp (hiff.mpr hh)
      have hn : ((d.view s).loadOf id).standing ≠ .waiting := by
        intro hw
        exact hc (h.sound.desk.store.isCurrent_iff.mpr ⟨h.known, hw⟩)
      exact ⟨hc', hv'.trans (hv.trans (hp.client.seen h.issued)), hs'.trans (hstand hn)⟩
    | settled hh => exact absurd hh hcp

/-- One action of a run settles the load of a waiter. -/
structure Settled (d : Driver σ α) (k : Ticket) (id : Nat) (w : Waiter Success Failure) (s : σ)
    (as pre : List α) (a : α) (p : Coordinator) : Prop where
  tracks : Tracks (d.view (d.run s pre)) k id w
  tag : ((d.view (d.run s pre)).loadOf id).tag = ((d.view s).loadOf id).tag
  current : (d.view (d.run s pre)).desk.store.isCurrent id
  unseen : (d.view (d.run s pre)).client.seen k = (d.view s).client.seen k
  prepares : ∃ N, Prepares N (d.occasion a) (d.view (d.run s pre)) p
  sole : Sole p k id w
  later : Later p (d.view (d.act (d.run s pre) a).1)
  fate : Fate k id w p (d.view (d.act (d.run s pre) a).1) (d.step (d.run s pre) a).2.toList
  gone : ¬ (d.view (d.act (d.run s pre) a).1).desk.store.isCurrent id
  seen : (d.view (d.run s as)).client.seen k =
    (d.view (d.act (d.run s pre) a).1).client.seen k
  standing : ((d.view (d.run s as)).loadOf id).standing =
    ((d.view (d.act (d.run s pre) a).1).loadOf id).standing

/-- Over a run a load stays current and its waiter is not told anything, or one action settles the
load, and nothing happens to the waiter before or after. -/
theorem tracked_run (h : Tracks (d.view s) k id w) (hc : (d.view s).desk.store.isCurrent id)
    (as : List α) :
    (d.view (d.run s as)).desk.store.isCurrent id ∧
      (d.view (d.run s as)).client.seen k = (d.view s).client.seen k ∨
    ∃ pre a post p, as = pre ++ a :: post ∧ Settled d k id w s as pre a p := by
  induction as generalizing s with
  | nil => exact Or.inl ⟨hc, rfl⟩
  | cons a as ih =>
    obtain ⟨ht, htag, -, N, p, hp, hsole, hl, hj⟩ := tracks_step h a
    have hv := hp.client.seen h.issued
    by_cases hc' : (d.view (d.act s a).1).desk.store.isCurrent id
    · have hstill : (d.view (d.act s a).1).client.seen k = (d.view s).client.seen k := by
        cases hj with
        | still _ hv' => exact hv'.trans hv
        | settled _ hn => exact absurd hc' hn
      rcases ih ht hc' with ⟨hcur, hseen⟩ | ⟨pre, b, post, q, rfl, hset⟩
      · exact Or.inl ⟨hcur, hseen.trans hstill⟩
      · refine Or.inr ⟨a :: pre, b, post, q, rfl, ?_⟩
        exact { hset with tag := hset.tag.trans htag, unseen := hset.unseen.trans hstill }
    · obtain ⟨-, hseen, hstand⟩ := gone_run ht hc' as
      refine Or.inr ⟨[], a, as, p, rfl, ?_⟩
      exact ⟨h, rfl, hc, rfl, ⟨N, hp⟩, hsole, hl, hj, hc', hseen, hstand⟩

theorem still_run (h : Tracks (d.view s) k id w) (as : List α)
    (hc : (d.view (d.run s as)).desk.store.isCurrent id) :
    (d.view s).desk.store.isCurrent id ∧
      (d.view (d.run s as)).client.seen k = (d.view s).client.seen k := by
  by_cases hs : (d.view s).desk.store.isCurrent id
  · rcases tracked_run h hs as with ⟨-, hseen⟩ | ⟨pre, a, post, p, rfl, hset⟩
    · exact ⟨hs, hseen⟩
    · rw [run_append] at hc
      exact absurd hc (gone_run (tracks_step hset.tracks a).1 hset.gone post).1
  · exact absurd hc (gone_run h hs as).1

/-- A load was settled and its waiter told, or the failure that it cannot be told of was raised. -/
structure Told (d : Driver σ α) (k : Ticket) (id : Nat) (w : Waiter Success Failure) (s : σ)
    (as pre : List α) (a : α) (outcome : Option Fault) (c₀ : Coordinator) : Prop where
  standing : ((d.view (d.run s as)).loadOf id).standing = standingOf outcome
  told : Coordinator.Told k w outcome c₀ (d.view (d.act (d.run s pre) a).1)
    (d.step (d.run s pre) a).2.toList
  sole : Sole c₀ k id w
  unseen : c₀.client.seen k = (d.view s).client.seen k
  tag : (c₀.loadOf id).tag = ((d.view s).loadOf id).tag
  gone : ¬ c₀.desk.store.isCurrent id
  error : ∀ f ∈ outcome, ∃ why cause, f = .load ((d.view s).loadOf id).tag why cause
  arrived : outcome = none → c₀.desk.store.contains ((d.view s).loadOf id).tag

theorem Settled.told {as pre : List α} {a : α} {p : Coordinator}
    (h : Settled d k id w s as pre a p) : ∃ outcome c₀, Told d k id w s as pre a outcome c₀ := by
  obtain ⟨N, hp⟩ := h.prepares
  have hcurrent := (hp.current h.tracks.known).mpr h.current
  have htag := (hp.tag h.tracks.known).trans h.tag
  have hseen := (hp.client.seen h.tracks.issued).trans h.unseen
  cases h.fate with
  | still hc => exact absurd (hc.mp hcurrent) h.gone
  | @settled outcome c₀ _ _ standing error before unseen gone arrived told =>
    rw [htag] at error arrived
    exact ⟨outcome, c₀, h.standing.trans standing, told, h.sole.later before, unseen.trans hseen,
      (before.desk.load id).tag.trans htag, gone, error, arrived⟩

end Driver

end Phrasebook
