import Phrasebook.Locale.Catalogue
import Phrasebook.Proofs.Loading.Localizer

/-!
# Definitions are completed

A definition is installed by the call itself, or in the step that settles the load of its base. Then
its promise is kept and its tag offered, but only if none of the waiters of the load that was
pending for the tag raises anything: what they raise leaves the step before either is done.
-/

namespace Phrasebook

namespace Coordinator

def waitersRaise (c : Coordinator) (l : Lexicon) : Option Fault :=
  match c.desk.install l with
  | (_, none, _) => none
  | (_, some id, desk) => (announce { c with desk } id none).2

theorem seen_promise {c d : Client} {p : Nat} (h : d.seen (.promise p) = c.seen (.promise p)) :
    d.promises[p]? = c.promises[p]? :=
  congrArg Prod.snd h

theorem Desk.getElem?_of_later {d e : Desk Success Failure} (h : d.Later e) {n : Nat} {l : Lexicon}
    (hl : d.shelf[n]? = some l) : e.shelf[n]? = some l :=
  shelved_mono h.shelf hl

section Install

variable {c : Coordinator} {l : Lexicon} {p : Nat}

theorem report_promise (h : c.client.promises[p]? = some .pending) (place : Nat) (tag : String) :
    (report c place (some (.promise p tag))).2 = none ∧
    (report c place (some (.promise p tag))).1.desk = c.desk ∧
    (report c place (some (.promise p tag))).1.client.promises[p]? =
      some (.kept (.lexicon place)) ∧
    (report c place (some (.promise p tag))).1.client.offers tag := by
  have hoffer : (c.client.offer tag).promises[p]? = some .pending := by
    unfold Client.offer
    split <;> exact h
  obtain ⟨hnone, hkept⟩ := Client.settle_pending _ hoffer (.kept (.lexicon place))
  refine ⟨hnone, rfl, hkept, ?_⟩
  exact (Client.serves_settle _ p _).later.offers (Client.offers_offer c.client tag)

theorem shelf_install (c : Coordinator) (l : Lexicon) {x : Nat × Option Nat × Desk Success Failure}
    (h : c.desk.install l = x) : x.2.2.shelf = c.desk.shelf ++ [l] := by
  subst h
  unfold Desk.install Desk.shelve
  dsimp only
  split <;> rfl

theorem shelved_install (hs : c.desk.Sound) (l : Lexicon) (r : Option Reporter) :
    (Coordinator.install announce c l r).1.desk.shelf[c.desk.shelf.length]? = some l := by
  have hshelf : ∀ {x}, c.desk.install l = x → x.2.2.shelf[c.desk.shelf.length]? = some l := by
    intro x hx
    rw [shelf_install c l hx]
    simp
  cases hpend : c.desk.store.pending.get? l.tag with
  | none =>
    obtain ⟨d, hd, -⟩ := install_vacant hs hpend
    simp only [Coordinator.install, hd, (report_serves _ r).1]
    exact hshelf hd
  | some j =>
    obtain ⟨d, hd, he⟩ := install_pending hs hpend
    obtain ⟨-, hl⟩ := announce_keeps j none he.sound
    have hon := Desk.getElem?_of_later hl.desk (hshelf hd)
    simp only [Coordinator.install, hd]
    generalize announce { c with desk := d } j none = s at hon
    rcases s with ⟨e, _ | f⟩
    · rwa [(report_serves (c := e) _ r).1]
    · exact hon

theorem install_promise (hs : c.desk.Sound) (hp : c.client.promises[p]? = some .pending)
    (hquiet : ∀ {j e}, Ends c j none e →
      (announce e j none).1.client.seen (.promise p) = c.client.seen (.promise p)) :
    let s := Coordinator.install announce c l (some (.promise p l.tag))
    s.2 = c.waitersRaise l ∧ s.1.desk.shelf[c.desk.shelf.length]? = some l ∧
    (c.waitersRaise l = none →
      s.1.client.promises[p]? = some (.kept (.lexicon c.desk.shelf.length)) ∧
      s.1.client.offers l.tag) ∧
    (∀ f, c.waitersRaise l = some f → s.1.client.promises[p]? = some .pending) := by
  intro s
  have hshelf : s.1.desk.shelf[c.desk.shelf.length]? = some l :=
    shelved_install hs l (some (.promise p l.tag))
  cases hpend : c.desk.store.pending.get? l.tag with
  | none =>
    obtain ⟨d, hd, -⟩ := install_vacant hs hpend
    have heq : s = report { c with desk := d } c.desk.shelf.length (some (.promise p l.tag)) := by
      simp only [s, Coordinator.install, hd]
    have hraise : c.waitersRaise l = none := by
      simp only [waitersRaise, hd]
    obtain ⟨hnone, -, hkept, hoffers⟩ :=
      report_promise (c := { c with desk := d }) hp c.desk.shelf.length l.tag
    rw [heq] at hshelf ⊢
    rw [hraise]
    exact ⟨hnone, hshelf, fun _ => ⟨hkept, hoffers⟩, by simp⟩
  | some j =>
    obtain ⟨d, hd, he⟩ := install_pending hs hpend
    have heq : s = reportAfter c.desk.shelf.length (some (.promise p l.tag))
        (announce { c with desk := d } j none) := by
      simp only [s, Coordinator.install, hd]
      rcases announce { c with desk := d } j none with ⟨e, _ | f⟩ <;> rfl
    have hraise : c.waitersRaise l = (announce { c with desk := d } j none).2 := by
      simp only [waitersRaise, hd]
    have hpending := (seen_promise (hquiet he)).trans hp
    rw [heq] at hshelf ⊢
    rw [hraise]
    generalize announce { c with desk := d } j none = x at hpending hshelf
    rcases x with ⟨e, _ | f⟩
    · obtain ⟨hnone, -, hkept, hoffers⟩ := report_promise hpending c.desk.shelf.length l.tag
      exact ⟨hnone, hshelf, fun _ => ⟨hkept, hoffers⟩, by simp⟩
    · exact ⟨rfl, hshelf, by simp, fun _ _ => hpending⟩

/-- A definition is installed in the state `c` of a step that ends in `c'`. In the end, `d`, the
promise is kept and the tag offered, unless the waiters raised something, which left the step. -/
structure Completes (p : Nat) (l : Lexicon) (c c' : Coordinator) (raised : Option Fault)
    (d : Coordinator) : Prop where
  shelved : c'.desk.shelf[c.desk.shelf.length]? = some l
  kept : c.waitersRaise l = none →
    d.client.promises[p]? = some (.kept (.lexicon c.desk.shelf.length)) ∧ d.client.offers l.tag
  lost : ∀ f, c.waitersRaise l = some f → d.client.promises[p]? = some .pending ∧
    ∀ e ∈ f.leaves, e ∈ Fault.leavesAll raised.toList

theorem Completes.pending_of_not_offered {c' d : Coordinator} {raised : Option Fault} {t : String}
    (h : Completes p l c c' raised d) (ht : l.tag = t) (ho : ¬ d.client.offers t) :
    ∃ f, c.waitersRaise l = some f ∧ d.client.promises[p]? = some .pending := by
  subst ht
  cases hf : c.waitersRaise l with
  | none => exact absurd (h.kept hf).2 ho
  | some f => exact ⟨f, rfl, (h.lost f hf).1⟩

/-- A promise that no waiter has a ticket for is only settled by the installation itself. -/
theorem quiet_of_confines {p : Nat} (hc : Confines (· ≠ .promise p) c) {j : Nat} {e : Coordinator}
    (he : Ends c j none e) :
    (announce e j none).1.client.seen (.promise p) = c.client.seen (.promise p) := by
  have hserves := announce_serves he.sound (hc.later he.later) j none
  exact (hserves.seen (absurd rfl)).trans (by rw [he.client])

/-- The promise of a waiter whose load is settled is only settled by its own turn. -/
theorem quiet_of_sole {k : Ticket} {id : Nat} {w : Waiter Success Failure} (hk : Sole c k id w)
    (hc : ¬ c.desk.store.isCurrent id) {j : Nat} {e : Coordinator} (he : Ends c j none e) :
    (announce e j none).1.client.seen k = c.client.seen k :=
  (fate_of_ends hk he (fair (forewarn_sound he.sound j none) _)).seen hc

/-- An installation that is reported to a promise completes the definition, also in every later
state in which the promise and the languages are as they were left. -/
theorem completes_of_install {e d : Coordinator} {raised : Option Fault} (hs : c.desk.Sound)
    (hp : c.client.promises[p]? = some .pending)
    (hquiet : ∀ {j e}, Ends c j none e →
      (announce e j none).1.client.seen (.promise p) = c.client.seen (.promise p))
    (heq : Coordinator.install announce c l (some (.promise p l.tag)) = (e, raised))
    (hd : d.client.promises[p]? = e.client.promises[p]?)
    (ho : e.client.offers l.tag → d.client.offers l.tag) : Completes p l c e raised d := by
  obtain ⟨hraised, hshelf, hkept, hlost⟩ := install_promise (l := l) hs hp hquiet
  rw [heq] at hraised hshelf hkept hlost
  refine ⟨hshelf, fun hn => ?_, fun f hf => ⟨hd.trans (hlost f hf), ?_⟩⟩
  · obtain ⟨hk, hof⟩ := hkept hn
    exact ⟨hd.trans hk, ho hof⟩
  · intro x hx
    have hraised' : raised = some f := hraised.trans hf
    simpa [hraised', Fault.leavesAll] using hx

end Install

end Coordinator

namespace Driver

open Coordinator

variable {σ α : Type} {d : Driver σ α} {s : σ}

theorem offers_run (hs : (d.view s).Sound) {tag : String} (h : (d.view s).client.offers tag)
    (as : List α) : (d.view (d.run s as)).client.offers tag := by
  induction as generalizing s with
  | nil => exact h
  | cons a as ih =>
    obtain ⟨N, hm, -⟩ := d.moves s a hs
    obtain ⟨p, hp, hl, -⟩ := hm.prepares hs
    refine ih (sound_step hs a) (hl.client.offers ?_)
    rw [Client.offers, hp.client.languages]
    exact h

end Driver

namespace Localizer

open Coordinator

section Define

variable {l : Localizer} {tag : String}

theorem promised_pending (c : Coordinator) :
    (promised c).client.promises[c.client.promises.length]? = some .pending := by
  change (c.client.promises ++ [Promise.pending])[c.client.promises.length]? = _
  simp

theorem confines_promised {c : Coordinator} (hs : c.Sound) :
    Confines (· ≠ .promise c.client.promises.length) (promised c) := by
  rintro id w hw k hk rfl
  exact unissued_of_nextTicket (Or.inr rfl) (hs.issued id w hw _ hk)

theorem issued_promised (c : Coordinator) :
    (Ticket.promise c.client.promises.length).Issued (promised c).client := by
  change c.client.promises.length < (c.client.promises ++ [Promise.pending]).length
  simp

theorem completes_at_once (hs : l.coordinator.Sound) {x : Lexicon} {l₁ : Localizer}
    {raised : Option Fault}
    (heq : Coordinator.install announce (promised l.coordinator) x
      (some (.promise l.client.promises.length x.tag)) = (l₁.coordinator, raised))
    (after : List Action) :
    Completes l.client.promises.length x (promised l.coordinator) l₁.coordinator raised
      (run l₁ after).coordinator := by
  have hconf := confines_promised hs
  have hprep := (readies_promised hs.desk).toPrepares
  have hpromised := hs.prepares hprep
  have hholds : ∀ k, (Turn.install x (some (.promise l.client.promises.length x.tag))).Holds k →
      k.Issued (promised l.coordinator).client := by
    rintro k ⟨r, ⟨rfl⟩, rfl⟩
    exact issued_promised l.coordinator
  obtain ⟨hs', hl⟩ := take_keeps hprep.sound
    (.install x (some (.promise l.client.promises.length x.tag)))
  have hs₁ := hpromised.serves hs' hl (take_serves hprep.sound hpromised.issued hholds)
  have hfst : (take announce (promised l.coordinator)
      (.install x (some (.promise l.client.promises.length x.tag)))).1 = l₁.coordinator :=
    congrArg Prod.fst heq
  rw [hfst] at hs₁ hl
  have hissued := hl.client.issued.mpr (issued_promised l.coordinator)
  obtain ⟨-, -, hseen⟩ := Driver.unheld_run (d := driver) hs₁ hissued (hconf.later hl) after
  exact completes_of_install hprep.sound (promised_pending l.coordinator) (quiet_of_confines hconf)
    heq (seen_promise hseen) fun ho => Driver.offers_run (d := driver) hs₁ ho after

theorem define_plain {data : Value} {entries : LexiconData}
    (hd : LexiconData.ofValue data = .ok entries) (c : Coordinator) (r : Option Reporter) :
    c.define tag data none r r = Coordinator.install announce c (.ofData tag entries) r := by
  simp only [Coordinator.define, hd]

theorem define_based {data : Value} {entries : LexiconData} {b : String}
    (hd : LexiconData.ofValue data = .ok entries) (hb : b ≠ tag) (c : Coordinator)
    (r : Option Reporter) :
    c.define tag data (some b) r r =
      Coordinator.faultOf (c.ensure b (definitionWaiter tag b entries r r)) := by
  simp only [Coordinator.define, hd, if_neg hb]
  rfl

theorem take_definition {c : Coordinator} {b : String} {x : Lexicon}
    (hx : c.desk.lexicon? b = some x) (tag : String) (entries : LexiconData) (r : Option Reporter) :
    take announce c (.success (.extendDefinition tag b entries r)) =
      Coordinator.install announce c (x.derive tag entries) r := by
  simp only [take, succeed, hx]

section Queued

variable {b : String} {entries : LexiconData} {p id : Nat} {c₀ c' : Coordinator} {fs : List Fault}

theorem completes_of_told {raised : Option Fault} {d : Coordinator}
    (h : Told (.promise p) (definitionWaiter tag b entries (some (.promise p tag))
      (some (.promise p tag))) none c₀ c' raised.toList)
    (hk : Sole c₀ (.promise p) id (definitionWaiter tag b entries (some (.promise p tag))
      (some (.promise p tag))))
    (hc : ¬ c₀.desk.store.isCurrent id) (hb : c₀.desk.store.contains b)
    (hp : c₀.client.promises[p]? = some .pending)
    (hd : d.client.promises[p]? = c'.client.promises[p]?)
    (ho : c'.client.offers tag → d.client.offers tag) :
    ∃ c₁ x, Later c₁ c' ∧ c₁.desk.lexicon? b = some x ∧
      Completes p (x.derive tag entries) c₁ c' raised d := by
  obtain ⟨c₁, h₁⟩ := h.turn _ rfl
  obtain ⟨x, hx⟩ := Option.isSome_iff_exists.mp
    (h₁.sound.lexicon? (h₁.before.desk.contains hb))
  have hp₁ := (seen_promise h₁.unseen).trans hp
  have hc₁ : ¬ c₁.desk.store.isCurrent id := fun hh => hc (h₁.before.desk.isCurrent hh)
  have htake := take_definition hx tag entries (some (.promise p tag))
  obtain ⟨-, hl⟩ := take_keeps h₁.sound
    (.success (.extendDefinition tag b entries (some (.promise p tag))))
  refine ⟨c₁, x, hl.trans h₁.after, hx, ?_⟩
  have hcomp := completes_of_install (l := x.derive tag entries) (d := d) h₁.sound hp₁
    (quiet_of_sole (hk.later h₁.before) hc₁) htake.symm (hd.trans (seen_promise h₁.seen))
    fun hof => ho (h₁.after.client.offers hof)
  refine ⟨Desk.getElem?_of_later h₁.after.desk hcomp.shelved, hcomp.kept, fun f hf => ?_⟩
  obtain ⟨hpend, hleaves⟩ := hcomp.lost f hf
  exact ⟨hpend, fun e he => h₁.raised e (hleaves e he)⟩

theorem broken_of_told {raised : Option Fault} {f : Fault}
    (h : Told (.promise p) (definitionWaiter tag b entries (some (.promise p tag))
      (some (.promise p tag))) (some f) c₀ c' raised.toList)
    (hp : c₀.client.promises[p]? = some .pending) :
    c'.client.promises[p]? = some (.broken (.load tag (.baseFailed b) (some f))) := by
  obtain ⟨c₁, h₁⟩ := h.turn _ rfl
  have hp₁ := (seen_promise h₁.unseen).trans hp
  obtain ⟨-, hbroken⟩ := Client.settle_pending _ hp₁ (.broken (.load tag (.baseFailed b) (some f)))
  exact (seen_promise h₁.seen).trans hbroken

end Queued

def promiseWaiter (p : Nat) (tag b : String) (entries : LexiconData) : Waiter Success Failure :=
  definitionWaiter tag b entries (some (.promise p tag)) (some (.promise p tag))

theorem call_eq (l : Localizer) (tag : String) (data : Value) (base : Option String) :
    ((faultOf (l.defineLexicon tag data base)).1.coordinator,
      (faultOf (l.defineLexicon tag data base)).2) =
    (promised l.coordinator).define tag data base
      (some (.promise l.client.promises.length tag))
      (some (.promise l.client.promises.length tag)) :=
  defineLexicon_eq l tag data base

theorem defined_later {data : Value} {entries : LexiconData} {b : String}
    (hs : l.coordinator.Sound) (hd : LexiconData.ofValue data = .ok entries) (hb : b ≠ tag)
    (hx : (promised l.coordinator).desk.lexicon? b = none) :
    let call := faultOf (l.defineLexicon tag data (some b))
    call.2 = none ∧ ∃ id, call.1.desk.store.pending.get? b = some id ∧
      call.1.desk.store.isCurrent id ∧ (call.1.coordinator.loadOf id).tag = b ∧
      call.1.client.promises[l.client.promises.length]? = some .pending ∧
      Tracks call.1.coordinator (.promise l.client.promises.length) id
        (promiseWaiter l.client.promises.length tag b entries) := by
  intro call
  have hcall := call_eq l tag data (some b)
  have hprep := (readies_promised hs.desk).toPrepares
  rw [define_based hd hb] at hcall
  rcases ensure_cases hprep.sound b (promiseWaiter l.client.promises.length tag b entries) with
    ⟨ht, -⟩ | ⟨id, d, heq, hq⟩
  · have hsome := hprep.sound.lexicon? ht
    rw [hx] at hsome
    contradiction
  · have hstep := hcall.trans heq
    have hcoord : call.1.coordinator = { promised l.coordinator with desk := d } :=
      congrArg Prod.fst hstep
    refine ⟨congrArg Prod.snd hstep, id, ?_, ?_, ?_, ?_, ?_⟩
    · change call.1.coordinator.desk.store.pending.get? b = some id
      rw [hcoord]
      exact (hq.pending b).trans (if_pos rfl)
    · change call.1.coordinator.desk.store.isCurrent id
      rw [hcoord]
      exact hq.current
    · rw [hcoord]
      exact hq.tag
    · change call.1.coordinator.client.promises[_]? = _
      rw [hcoord]
      exact promised_pending l.coordinator
    · rw [hcoord]
      refine tracks_of_queues hs l.coordinator.client.numbers_promise hq rfl ?_
        (unissued_of_nextTicket (Or.inr rfl)) (issued_promised l.coordinator)
      rintro k (⟨r, ⟨rfl⟩, rfl⟩ | ⟨_, ⟨rfl⟩, r, ⟨rfl⟩, rfl⟩)
      · exact issued_promised l.coordinator
      · exact issued_promised l.coordinator

/-- In any run of a localizer, a definition with data of the right shape is installed by the call if
it has no base, or if its base is there; otherwise it waits for the current load of its base, and
is installed in the step that ends this load with a lexicon, or fails with it. In the step that
installs it, its promise is kept with the lexicon and its tag is offered, unless a waiter of the
load that was pending for the tag raised something: then the promise is never settled. -/
theorem definition_completes {setup : Setup} {config : Config} {l₀ : Localizer}
    (h : create setup config = .ok l₀) (before after : List Action) (tag : String) {data : Value}
    {entries : LexiconData} (hd : LexiconData.ofValue data = .ok entries) (base : Option String)
    (hb : base ≠ some tag) :
    let l := run l₀ before
    let p := l.client.promises.length
    let c := promised l.coordinator
    let call := faultOf (l.defineLexicon tag data base)
    let l₂ := run call.1 after
    (base = none →
      Completes p (.ofData tag entries) c call.1.coordinator call.2 l₂.coordinator) ∧
    (∀ b ∈ base, ∀ x ∈ c.desk.lexicon? b,
      Completes p (x.derive tag entries) c call.1.coordinator call.2 l₂.coordinator) ∧
    (∀ b ∈ base, c.desk.lexicon? b = none → call.2 = none ∧ ∃ id,
      call.1.desk.store.pending.get? b = some id ∧
      ((l₂.coordinator.loadOf id).standing = .waiting →
        l₂.client.promises[p]? = some .pending) ∧
      ((l₂.coordinator.loadOf id).standing ≠ .waiting → ∃ pre a post,
        after = pre ++ a :: post ∧
        (run call.1 pre).desk.store.isCurrent id ∧
        ¬ ((run call.1 pre).act a).1.desk.store.isCurrent id ∧
        ((l₂.coordinator.loadOf id).standing = .installed → ∃ c₁ x,
          Later c₁ ((run call.1 pre).act a).1.coordinator ∧ c₁.desk.lexicon? b = some x ∧
          Completes p (x.derive tag entries) c₁ ((run call.1 pre).act a).1.coordinator
            ((run call.1 pre).act a).2 l₂.coordinator) ∧
        ((l₂.coordinator.loadOf id).standing = .abandoned → ∃ why cause,
          l₂.client.promises[p]? =
            some (.broken (.load tag (.baseFailed b) (some (.load b why cause))))))) := by
  intro l p c call l₂
  have hs₀ : l₀.coordinator.Sound := sound_create h
  have hs : l.coordinator.Sound := Driver.sound_run (d := driver) hs₀ before
  have hcall := call_eq l tag data base
  refine ⟨?_, ?_, ?_⟩
  · rintro rfl
    rw [define_plain hd] at hcall
    exact completes_at_once hs hcall.symm after
  · rintro b ⟨rfl⟩ x hx
    have hne : b ≠ tag := fun he => hb (congrArg some he)
    have hdesk : c.desk.Sound := (readies_promised hs.desk).sound
    have hget : c.desk.lexicon? b = some x := hx
    rw [define_based hd hne] at hcall
    rcases ensure_cases hdesk b (promiseWaiter p tag b entries) with ⟨-, heq⟩ | ⟨_, _, -, hq⟩
    · have hinstall := take_definition hget tag entries (some (.promise p tag))
      exact completes_at_once hs ((hcall.trans (heq.trans hinstall)).symm) after
    · have hnone : c.desk.lexicon? b = none := by
        have hget' : c.desk.store.get? b = none := by
          have habsent := hq.absent
          rw [Store.contains, Table.contains] at habsent
          exact Option.not_isSome_iff_eq_none.mp habsent
        rw [Desk.lexicon?, hget']
        rfl
      exact absurd (hget.symm.trans hnone) (Option.some_ne_none x)
  · -- the promise now hangs on the load of the base: follow that load to the step that ends it
    rintro b ⟨rfl⟩ hx
    have hne : b ≠ tag := fun he => hb (congrArg some he)
    obtain ⟨hquiet, id, hpend, hcur, htag, hp, htracks⟩ := defined_later hs hd hne hx
    have hs₁ : call.1.coordinator.Sound :=
      Driver.sound_step (d := driver) hs (.defineLexicon tag data (some b))
    have hs₂ : l₂.coordinator.Sound := Driver.sound_run (d := driver) hs₁ after
    refine ⟨hquiet, id, hpend, ?_⟩
    rcases Driver.tracked_run (d := driver) htracks hcur after with
      ⟨hcur₂, hseen⟩ | ⟨pre, a, post, q, rfl, hset⟩
    · have hstand : (l₂.coordinator.loadOf id).standing = .waiting :=
        (hs₂.desk.store.isCurrent_iff.mp hcur₂).2
      exact ⟨fun _ => (seen_promise hseen).trans hp, fun hn => absurd hstand hn⟩
    · have hend : l₂.client.promises[p]? = _ := seen_promise hset.seen
      obtain ⟨outcome, c₀, ht⟩ := hset.told
      have hstand : (l₂.coordinator.loadOf id).standing = standingOf outcome := ht.standing
      have hp₀ := (seen_promise ht.unseen).trans hp
      have htag' : ((driver.view call.1).loadOf id).tag = b := htag
      have hs₃ : ((run call.1 pre).act a).1.coordinator.Sound :=
        Driver.sound_step (d := driver) (Driver.sound_run (d := driver) hs₁ pre) a
      rw [hstand]
      cases outcome with
      | none =>
        refine ⟨fun hn => absurd hn (standingOf_ne none), fun _ => ⟨pre, a, post, rfl,
          hset.current, hset.gone, fun _ => ?_, by simp [standingOf]⟩⟩
        have hb₀ : c₀.desk.store.contains b := htag' ▸ ht.arrived rfl
        refine completes_of_told ht.told ht.sole ht.gone hb₀ hp₀ hend fun ho => ?_
        have hl₂ : l₂ = run ((run call.1 pre).act a).1 post := by
          change driver.run call.1 (pre ++ a :: post) = _
          rw [Driver.run_append]
          rfl
        rw [hl₂]
        exact Driver.offers_run (d := driver) hs₃ ho post
      | some f =>
        refine ⟨fun hn => absurd hn (standingOf_ne (some f)), fun _ => ⟨pre, a, post, rfl,
          hset.current, hset.gone, by simp [standingOf], fun _ => ?_⟩⟩
        obtain ⟨why, cause, rfl⟩ := ht.error f rfl
        rw [htag'] at ht
        exact ⟨why, cause, hend.trans (broken_of_told ht.told hp₀)⟩

/-- A callback that raises waits for a tag whose definition waits for its base. When the base has
come, the definition is installed and the callback called; what it raises leaves the step, the
promise stays pending and the tag is not offered. -/
theorem definition_completes_raising :
    let data : Value := .map [(.text "*", .map [(.text "k", .text "v")])]
    let entries : LexiconData := .ofList [("*", .ofList [("k", "v")])]
    let s : Setup :=
      ⟨.list [.text "en"], .none, [], .broken, some fun _ _ => .resource ⟨data, none⟩, .catalogue⟩
    let config : Config := ⟨⟨.whole 5, rfl⟩, "", [], "*"⟩
    let l₀ := empty s config (Registry.builtins .catalogue) [.text "en"]
    let l := run l₀ [.ensureLoaded "de" (.function ⟨"ok", some (.raised "ValueError" "no")⟩) none]
    let call := faultOf (l.defineLexicon "de" data (some "b"))
    let a : Action := .deliver 1 (.resource ⟨data, none⟩)
    let c₂ := (run call.1 [a]).coordinator
    create s config = .ok l₀ ∧ LexiconData.ofValue data = .ok entries ∧ some "b" ≠ some "de" ∧
      call.1.pending = ["de", "b"] ∧ c₂.desk.store.contains "b" ∧ c₂.desk.store.contains "de" ∧
      (call.1.act a).2.isSome ∧
      c₂.client.promises[l.client.promises.length]? = some .pending ∧ ¬ c₂.client.offers "de" := by
  intro data entries s config l₀
  have h : create s config = .ok l₀ := rfl
  have hd : LexiconData.ofValue data = .ok entries := rfl
  have hb : some "b" ≠ some "de" := by decide
  obtain ⟨-, -, hlater⟩ := definition_completes h
    [.ensureLoaded "de" (.function ⟨"ok", some (.raised "ValueError" "no")⟩) none]
    [.deliver 1 (.resource ⟨data, none⟩)] "de" hd (some "b") hb
  obtain ⟨-, id, hid, -, hgone⟩ := hlater "b" rfl rfl
  obtain rfl : id = 1 := Option.some.inj (hid.symm.trans (by decide +kernel))
  obtain ⟨_, _, _, -, -, -, hinstalled, -⟩ := hgone (by decide +kernel)
  obtain ⟨_, _, -, -, hcompletes⟩ := hinstalled (by decide +kernel)
  obtain ⟨_, -, hpending⟩ := hcompletes.pending_of_not_offered (t := "de") rfl (by decide +kernel)
  exact ⟨h, hd, hb, by decide +kernel, by decide +kernel, by decide +kernel, by decide +kernel,
    hpending, by decide +kernel⟩

end Define

end Localizer

end Phrasebook
