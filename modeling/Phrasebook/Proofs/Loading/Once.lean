import Mathlib.Tactic.ByContra
import Phrasebook.Proofs.Loading.Account
import Phrasebook.Proofs.Loading.Run

/-!
# Every ticket is served in one turn

A ticket that a waiter holds is served in one turn, which is taken in the step that settles the load
of the waiter. Until this turn, and after it, nothing is done for the ticket, however many loads are
settled in the same step and whatever their waiters raise.
-/

namespace Phrasebook

namespace Coordinator

/-- One of the turns at hand at most serves a ticket, and only if the load of its waiter was settled
before. -/
structure Single (c : Coordinator) (k : Ticket) (id : Nat) (ts : List Turn) : Prop where
  current : c.desk.store.isCurrent id → ∀ t ∈ ts, ¬ t.Holds k
  one : ts.Pairwise fun t u => t.Holds k → ¬ u.Holds k

/-- All that is done for a ticket between two states is done in one turn. -/
structure Served (k : Ticket) (c c₁ : Coordinator) (t : Turn) (d : Coordinator) : Prop where
  unseen : c₁.client.seen k = c.client.seen k
  seen : d.client.seen k = (take announce c₁ t).1.client.seen k

section Single

variable {owner holder : Option Nat} {c c₁ d e : Coordinator} {k : Ticket} {id : Nat}
  {w : Waiter Success Failure} {t u : Turn} {ts : List Turn} {fs : List Fault} {is : List Incident}
  {raised : Option Fault} {j : Nat} {outcome : Option Fault}

theorem Single.rest (h : Single c k id (t :: ts)) (hl : Later c d) : Single d k id ts where
  current hd x hx := h.current (hl.desk.isCurrent hd) x (List.mem_cons_of_mem t hx)
  one := (List.pairwise_cons.mp h.one).2

theorem Sole.alike (h : Sole c k id w) (ha : Alike c d) : Sole d k id w where
  here := by
    rw [ha.waiters]
    exact h.here
  elsewhere j hj := by
    rw [ha.waiters]
    exact h.elsewhere j hj

theorem Sole.pairwise (h : Sole c k id w) :
    (c.loadOf id).waiters.Pairwise fun x y => x.Holds k → ¬ y.Holds k := by
  obtain ⟨pre, post, hw, hother⟩ := h.here
  have hpre : ∀ x ∈ pre, ¬ x.Holds k := fun x hx => hother x (List.mem_append_left _ hx)
  have hpost : ∀ x ∈ post, ¬ x.Holds k := fun x hx => hother x (List.mem_append_right _ hx)
  rw [hw, List.pairwise_append, List.pairwise_cons]
  refine ⟨?_, ⟨fun y hy _ => hpost y hy, ?_⟩, fun x hx _ _ hh => absurd hh (hpre x hx)⟩
  · exact List.pairwise_of_forall_mem_list fun x hx _ _ hh => absurd hh (hpre x hx)
  · exact List.pairwise_of_forall_mem_list fun x hx _ _ hh => absurd hh (hpost x hx)

theorem Sole.of_turn (h : Sole c k id w) (ht : t ∈ (c.loadOf j).turns outcome)
    (hh : t.Holds k) : j = id := by
  by_contra hj
  rw [Load.turns_eq] at ht
  obtain ⟨x, hx, hxt⟩ := List.mem_filterMap.mp ht
  exact h.elsewhere j hj x hx (Waiter.holds_turn hxt hh)

theorem single_of_ends (hk : Sole c k id w) (he : Ends c j outcome e) :
    Single (e.forewarn j outcome) k id ((e.loadOf j).turns outcome) where
  current hc t ht hh := by
    obtain rfl := (hk.later he.later).of_turn ht hh
    rw [store_forewarn] at hc
    exact he.settles.not_current hc
  one := by
    by_cases hj : j = id
    · subst hj
      rw [Load.turns_eq]
      refine (hk.later he.later).pairwise.filterMap _ fun x y hxy t ht u hu hh hh' => ?_
      exact hxy (Waiter.holds_turn ht hh) (Waiter.holds_turn hu hh')
    · refine List.pairwise_of_forall_mem_list fun t ht _ _ hh => ?_
      exact absurd ((hk.later he.later).of_turn ht hh) hj

theorem Tells.silent (h : Tells owner c ts d fs is) (hs : c.desk.Sound) (hk : Sole c k id w)
    (hc : ¬ c.desk.store.isCurrent id) (hts : ∀ t ∈ ts, ¬ t.Holds k) :
    d.client.seen k = c.client.seen k ∧
      ∀ holder c₁ t raised, .turn holder c₁ t raised ∈ is → ¬ t.Holds k := by
  constructor
  · have hfate := (fair hs ts).fate hk hts
    rw [h.fanout_eq hs] at hfate
    exact hfate.seen hc
  · intro holder c₁ t raised hm hh
    cases (h.scene hs hm).origin with
    | given _ ht => exact hts t ht hh
    | @waiter i o _ hi ht _ =>
      obtain rfl := hk.of_turn ht hh
      have hnone := (h.settled hs hc).1
      exact absurd (hnone ▸ mem_outcomesOf.mpr hi) List.not_mem_nil

theorem seen_report (hs : c.desk.Sound) {place : Nat} {r : Option Reporter}
    (heq : ∀ announce, take announce c t = reportAfter place r (announce e j outcome))
    (ht : ¬ t.Holds k) (d : Coordinator) :
    (report d place r).1.client.seen k = d.client.seen k := by
  have htaken := taken hs t
  have hmute : (fun announce => take announce c t) (mute d) = report d place r := heq (mute d)
  have hconst : ∀ s : Step, (∀ announce, take announce c t = s) → False := fun s h =>
    not_through fun announce => (h announce).symm.trans (heq announce)
  rw [← hmute]
  generalize hact : (fun announce => take announce c t) = act at htaken
  cases htaken with
  | aside => exact (hconst _ fun announce => congrFun hact announce).elim
  | ends => rfl
  | puts => exact (hconst _ fun announce => congrFun hact announce).elim
  | @installs _ _ l x hdef _ =>
    exact (report_serves _ x).2.seen fun hx => ht (Turn.holds_of_definition? hdef hx)

theorem seen_take (hs : c.desk.Sound) (hk : Sole c k id w) (ht : ¬ t.Holds k)
    (hc : c.desk.store.isCurrent id → (take announce c t).1.desk.store.isCurrent id) :
    (take announce c t).1.client.seen k = c.client.seen k := by
  have hfate := (fair hs [t]).fate hk fun x hx => List.mem_singleton.mp hx ▸ ht
  cases hfate with
  | still _ hv => exact hv
  | settled hcur hn => exact absurd (hc hcur) hn

theorem Tells.after (h : Tells owner (take announce c t).1 ts d fs is) (hs : c.desk.Sound)
    (hk : Sole c k id w) (hone : Single c k id (t :: ts)) :
    (t.Holds k → d.client.seen k = (take announce c t).1.client.seen k) ∧
      ∀ holder c₁ u raised, .turn holder c₁ u raised ∈ is → u.Holds k →
        (take announce c t).1.client.seen k = c.client.seen k := by
  obtain ⟨hs', hl⟩ := take_keeps hs t
  have hk' := hk.later hl
  have hheld : t.Holds k → d.client.seen k = (take announce c t).1.client.seen k ∧
      ∀ holder c₁ u raised, .turn holder c₁ u raised ∈ is → ¬ u.Holds k := by
    intro hh
    refine h.silent hs' hk' (fun hc => ?_) fun u hu => (List.pairwise_cons.mp hone.one).1 u hu hh
    exact hone.current (hl.desk.isCurrent hc) t List.mem_cons_self hh
  refine ⟨fun hh => (hheld hh).1, fun holder c₁ u raised hm hu => ?_⟩
  refine seen_take hs hk (fun hh => (hheld hh).2 holder c₁ u raised hm hu) fun hc => ?_
  by_contra hn
  have hts : ∀ x ∈ ts, ¬ x.Holds k := fun x hx => hone.current hc x (List.mem_cons_of_mem t hx)
  exact (h.silent hs' hk' hn hts).2 holder c₁ u raised hm hu

/-- Whoever takes a turn in an announcement waits for a load that was current before. -/
theorem current_of_turn {gs : List Fault} {js : List Incident} (he : Ends c j outcome e)
    (inner : Tells (some j) (e.forewarn j outcome) ((e.loadOf j).turns outcome) d gs js)
    (hk : Sole c k id w) (hm : .turn holder c₁ t raised ∈ js) (hh : t.Holds k) :
    c.desk.store.isCurrent id ∧ ¬ d.desk.store.isCurrent id := by
  have ha := inner.announced he
  have hgone : ¬ (e.forewarn j outcome).desk.store.isCurrent j := by
    rw [store_forewarn]
    exact he.settles.not_current
  cases (inner.scene ha.start hm).origin with
  | given _ ht =>
    obtain rfl := (hk.later he.later).of_turn ht hh
    exact ⟨he.settles.current, mt ha.inner.desk.isCurrent hgone⟩
  | @waiter i o _ hi ht _ =>
    obtain rfl := (hk.later ha.into).of_turn ht hh
    have hcur : (e.forewarn j outcome).desk.store.isCurrent i := by
      by_contra hn
      have hnone := (inner.settled ha.start hn).1
      exact absurd (hnone ▸ mem_outcomesOf.mpr hi) List.not_mem_nil
    have hne : j ≠ i := fun hji => hgone (hji ▸ hcur)
    rcases inner.current ha.start hcur (mt Option.some.inj hne) with ⟨-, hsp⟩ | ⟨_, hr⟩
    · exact absurd (hsp.outcomes ▸ mem_outcomesOf.mpr hi) List.not_mem_nil
    · exact ⟨ha.into.desk.isCurrent hcur, hr.gone⟩

/-- The turn in which a ticket is served is the only one. -/
theorem Tells.served (h : Tells owner c ts d fs is) (hs : c.desk.Sound) (hk : Sole c k id w)
    (hone : Single c k id ts) (hm : .turn holder c₁ t raised ∈ is) (hh : t.Holds k) :
    Served k c c₁ t d := by
  induction h generalizing holder c₁ t raised with
  | nil => exact absurd hm List.not_mem_nil
  | @alone owner c u c' f ts d fs is hc heq rest ih =>
    have htake : (take announce c u).1 = c' := congrArg Prod.fst (heq announce)
    obtain ⟨hthis, hothers⟩ := (htake ▸ rest).after hs hk hone
    rw [htake] at hthis hothers
    rcases List.mem_cons.mp hm with hm | hm
    · cases hm
      exact ⟨rfl, (hthis hh).trans (by rw [htake])⟩
    · have hserved := ih hc.sound (hk.later hc.later) (hone.rest hc.later) hm hh
      exact ⟨hserved.unseen.trans (hothers _ _ _ _ hm hh), hserved.seen⟩
  | @through owner c u e j outcome place r c' gs js c'' f ts d fs is he heq inner hout rest
      ihin ih =>
    have hp := inner.passes hs he heq hout
    have htake : (take announce c u).1 = c'' := congrArg Prod.fst hp.taken
    obtain ⟨hthis, hothers⟩ := (htake ▸ rest).after hs hk hone
    rw [htake] at hthis hothers
    rcases List.mem_cons.mp hm with hm | hm
    · cases hm
      exact ⟨rfl, (hthis hh).trans (by rw [htake])⟩
    rcases List.mem_append.mp ((List.mem_cons.mp hm).resolve_left nofun) with hm | hm
    · -- the turn is taken in the announcement, so the turns at hand do not hold the ticket
      have hserved := ihin hp.start (hk.later hp.into) (single_of_ends hk he) hm hh
      obtain ⟨hcur, hgone⟩ := current_of_turn he inner hk hm hh
      have hnone := hone.current hcur
      have hclient : (e.forewarn j outcome).client = c.client :=
        (client_forewarn e j outcome).trans he.client
      have hreport : c''.client.seen k = c'.client.seen k := by
        have hseen := seen_report hs heq (hnone u List.mem_cons_self) c'
        generalize gather ((e.loadOf j).unhandled outcome) gs = g at hout
        cases g with
        | none => rwa [show report c' place r = (c'', f) from hout] at hseen
        | some g =>
          cases hout
          rfl
      have hrest := (rest.silent hp.sound (hk.later hp.later) (mt hp.outer.desk.isCurrent hgone)
        fun x hx => hnone x (List.mem_cons_of_mem u hx)).1
      exact ⟨hserved.unseen.trans (by rw [hclient]), hrest.trans (hreport.trans hserved.seen)⟩
    · have hserved := ih hp.sound (hk.later hp.later) (hone.rest hp.later) hm hh
      exact ⟨hserved.unseen.trans (hothers _ _ _ _ hm hh), hserved.seen⟩

end Single

def Deed.Holds : Deed → Ticket → Prop
  | .ask _ w, k => w.Holds k
  | .turn t, k => t.Holds k
  | .nothing _, _ | .expire _, _ => False

/-- A turn that is taken in a step holds no tickets but those of the waiters, and those that the
step is done for itself. -/
theorem Course.unheld {c : Coordinator} {deed : Deed} {s : Step} {is : List Incident}
    {H : Ticket → Prop} (h : Course c deed s is) (hs : c.desk.Sound) (hc : Confines H c)
    (hd : ∀ k, deed.Holds k → H k) {holder : Option Nat} {c₁ : Coordinator} {t : Turn}
    {raised : Option Fault} (hm : .turn holder c₁ t raised ∈ is) {k : Ticket} (hh : t.Holds k) :
    H k := by
  obtain ⟨owner, b, ts, hl, hscene, hstarts⟩ := h.scene hs hm
  cases hscene.origin with
  | given _ ht =>
    cases hstarts t ht with
    | turn => exact hd k hh
    | present => exact hd k (Or.inl hh)
    | timer ht => exact hc.turns _ _ t ht k hh
  | waiter _ _ ht _ => exact (hc.later hl).turns _ _ t ht k hh

theorem Tells.of_fixed {owner : Option Nat} {c d : Coordinator} {t : Turn} {fs : List Fault}
    {is : List Incident} (h : Tells owner c [t] d fs is) {s : Step}
    (hs : ∀ announce, take announce c t = s) :
    is = [.turn owner c t s.2] ∧ d = s.1 ∧ fs = s.2.toList := by
  cases h with
  | alone _ heq rest =>
    obtain rfl := (hs announce).symm.trans (heq announce)
    cases rest
    exact ⟨rfl, rfl, List.append_nil _⟩
  | through _ heq => exact absurd (fun a => (hs a).symm.trans (heq a)) not_through

theorem Course.leaves_of_fixed {c c₁ : Coordinator} {deed : Deed} {s x : Step}
    {is : List Incident} {holder : Option Nat} {t : Turn} {raised : Option Fault} {tag : String}
    {why : LoadFailure} {cause : Option Fault} (h : Course c deed s is) (hs : c.desk.Sound)
    (hm : .turn holder c₁ t raised ∈ is) (hx : ∀ announce, take announce c₁ t = x)
    (hf : x.2 = some (.load tag why cause)) :
    .load tag why cause ∈ Fault.leavesAll s.2.toList := by
  obtain ⟨owner, b, ts, -, hscene, -⟩ := h.scene hs hm
  obtain ⟨c₂, g, js, htells, -, -⟩ := hscene.taken
  have hraised : raised = x.2 :=
    (Incident.turn.inj (List.cons.inj (htells.of_fixed hx).1).1).2.2.2
  rw [h.leaves hs (List.ne_nil_of_mem hm)]
  refine Fault.mem_leavesAll_of_mem (List.mem_flatMap.mpr ⟨_, hm, ?_⟩)
  rw [hraised, hf]
  exact List.mem_singleton_self _

/-- In a step that is not done for a ticket itself, the ticket is served in one turn at most, and
then its load was current before the step. -/
theorem Course.served {c : Coordinator} {deed : Deed} {s : Step} {is : List Incident} {k : Ticket}
    {id : Nat} {w : Waiter Success Failure} (h : Course c deed s is) (hs : c.desk.Sound)
    (hk : Sole c k id w) (hd : ¬ deed.Holds k) {holder : Option Nat} {c₁ : Coordinator} {t : Turn}
    {raised : Option Fault} (hm : .turn holder c₁ t raised ∈ is) (hh : t.Holds k) :
    c.desk.store.isCurrent id ∧ Served k c c₁ t s.1 := by
  have htells : ∀ {u d fs is}, Tells none c [u] d fs is → ¬ u.Holds k →
      .turn holder c₁ t raised ∈ is → c.desk.store.isCurrent id ∧ Served k c c₁ t d := by
    intro u d fs is h hu hm
    have hnone : ∀ x ∈ [u], ¬ x.Holds k := fun x hx => List.mem_singleton.mp hx ▸ hu
    have hcur : c.desk.store.isCurrent id := by
      by_contra hn
      exact (h.silent hs hk hn hnone).2 holder c₁ t raised hm hh
    exact ⟨hcur, h.served hs hk ⟨fun _ => hnone, List.pairwise_singleton _ u⟩ hm hh⟩
  cases h with
  | nothing => exact absurd hm List.not_mem_nil
  | queued => exact absurd hm List.not_mem_nil
  | present _ h => exact htells h (fun hu => hd (Or.inl hu)) hm
  | turn h => exact htells h hd hm
  | never => exact absurd hm List.not_mem_nil
  | late => exact absurd hm List.not_mem_nil
  | @expired i seconds f d gs is _ _ h =>
    obtain @⟨e, _, _, is, he, -, h⟩ := h
    have hm' := (List.mem_cons.mp hm).resolve_left nofun
    have hkf := hk.later (later_fired c i)
    have ha := h.announced he
    have hserved := h.served ha.start (hkf.later ha.into) (single_of_ends hkf he) hm' hh
    obtain ⟨hcur, -⟩ := current_of_turn he h hkf hm' hh
    have hclient : (e.forewarn i (some f)).client = c.client :=
      (client_forewarn e i (some f)).trans he.client
    exact ⟨(isCurrent_fired c i id).mp hcur, hserved.unseen.trans (by rw [hclient]), hserved.seen⟩

end Coordinator

end Phrasebook
