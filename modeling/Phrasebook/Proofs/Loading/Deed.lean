import Phrasebook.Proofs.Loading.Action

/-!
# What an action comes down to

An action first numbers a request, or takes down that an errand is over. Then it asks for a
lexicon, takes one turn, lets a timer fire, or does nothing at all. So the loads that there are, and
who waits for them, change in one way only: a waiter is queued when a lexicon is asked for.
-/

namespace Phrasebook

namespace Coordinator

inductive Deed where
  | nothing (raised : Option Fault)
  | ask (tag : String) (w : Waiter Success Failure)
  | turn (t : Turn)
  | expire (load : Nat)

def perform (c : Coordinator) : Deed → Step
  | .nothing raised => (c, raised)
  | .ask tag w => faultOf (c.ensure tag w)
  | .turn t => take announce c t
  | .expire id => c.elapse id

namespace Deed

def definition (tag : String) (data : Value) (base : Option String)
    (installed failed : Option Reporter) : Deed :=
  match LexiconData.ofValue data, base with
  | .error f, _ => .nothing (some (.data f))
  | .ok entries, none => .turn (.install (.ofData tag entries) installed)
  | .ok entries, some b =>
    if b = tag then .nothing (some (.ownBase tag))
    else .ask b (definitionWaiter tag b entries installed failed)

def arrival (c : Coordinator) (id : Nat) : Delivery → Deed
  | .fault f =>
    match f.text with
    | .ok reason => .turn (.giveUp id (.failed reason) f)
    | .error g => .nothing (some g)
  | .other => .nothing (some .noAttribute)
  | .resource ⟨data, none⟩ => .turn (.finish id data none)
  | .resource ⟨data, some b⟩ =>
    if b = (c.loadOf id).tag then .turn (.giveUp id .ownBase (.ownBaseResource b))
    else .ask b (loadWaiter id b data)

def request (number : Nat) (tag : String) (onSuccess : Given Callback)
    (onError : Option (Given Callback)) : Deed :=
  match Localizer.checkCallbacks onSuccess onError with
  | some f => .nothing (some f)
  | none => .ask tag (callerWaiter number onSuccess onError)

end Deed

def requested (c : Coordinator) (onSuccess : Given Callback) (onError : Option (Given Callback)) :
    Coordinator :=
  match Localizer.checkCallbacks onSuccess onError with
  | some _ => c
  | none => c.numbered

def heard (c : Coordinator) (id : Nat) : Coordinator :=
  if (c.loadOf id).fetch = .outstanding then c.answered id else c

def Deed.errand (c : Coordinator) (id : Nat) (d : Delivery) : Deed :=
  if (c.loadOf id).fetch = .outstanding then .arrival c id d else .nothing none

/-- What it comes to when an errand is over. -/
inductive Concludes (c : Coordinator) (id : Nat) : Delivery → Deed → Prop where
  | fault {f reason} (h : f.text = .ok reason) :
      Concludes c id (.fault f) (.turn (.giveUp id (.failed reason) f))
  | wordless {f g} (h : f.text = .error g) : Concludes c id (.fault f) (.nothing (some g))
  | other : Concludes c id .other (.nothing (some .noAttribute))
  | finish {data} : Concludes c id (.resource ⟨data, none⟩) (.turn (.finish id data none))
  | ownBase {data} : Concludes c id (.resource ⟨data, some (c.loadOf id).tag⟩)
      (.turn (.giveUp id .ownBase (.ownBaseResource (c.loadOf id).tag)))
  | base {data b} (h : b ≠ (c.loadOf id).tag) :
      Concludes c id (.resource ⟨data, some b⟩) (.ask b (loadWaiter id b data))

theorem concludes (c : Coordinator) (id : Nat) (x : Delivery) :
    Concludes c id x (.arrival c id x) := by
  unfold Deed.arrival
  split
  · split
    · exact .fault ‹_›
    · exact .wordless ‹_›
  · exact .other
  · exact .finish
  · split
    · rename_i hb
      exact hb ▸ .ownBase
    · exact .base ‹_›

theorem errand_concludes {c : Coordinator} {id : Nat} {x : Delivery} {deed : Deed}
    (h : Deed.errand c id x = deed) :
    deed = .nothing none ∨ (c.loadOf id).fetch = .outstanding ∧ Concludes c id x deed := by
  unfold Deed.errand at h
  split at h
  · rename_i hout
    exact Or.inr ⟨hout, h ▸ concludes c id x⟩
  · exact Or.inl h.symm

namespace Action

/-- The coordinator after a request was numbered, or an errand taken down as over. -/
def base (c : Coordinator) : Action → Coordinator
  | ensure _ onSuccess onError => c.requested onSuccess onError
  | define .. => c.numbered
  | deliver id _ => c.heard id
  | install _ | expire _ => c

def deed (c : Coordinator) : Action → Deed
  | ensure tag onSuccess onError => .request c.client.requests tag onSuccess onError
  | define tag data base onInstalled onFailed =>
    .definition tag data base (onInstalled.map (.caller c.client.requests))
      (onFailed.map (.caller c.client.requests))
  | install l => .turn (.install l none)
  | deliver id result => .errand c id (delivery result)
  | expire id => .expire id

end Action

section Deeds

variable {c : Coordinator}

theorem define_eq (c : Coordinator) (tag : String) (data : Value) (base : Option String)
    (installed failed : Option Reporter) :
    c.define tag data base installed failed =
      c.perform (.definition tag data base installed failed) := by
  unfold define Deed.definition
  cases LexiconData.ofValue data with
  | error f => rfl
  | ok entries =>
    cases base with
    | none => rfl
    | some b =>
      by_cases hb : b = tag
      · simp only [if_pos hb, perform]
      · simp only [if_neg hb, perform]
        rfl

theorem deliver_eq (hs : c.desk.Sound) {id : Nat} (hout : (c.loadOf id).fetch = .outstanding)
    (d : Delivery) : c.deliver id d = (c.answered id).perform (.arrival c id d) := by
  generalize Deed.arrival c id d = deed, concludes c id d = h
  cases h with
  | fault hf => exact deliver_fault c id hf
  | wordless hf => exact deliver_wordless c id hf
  | other => rfl
  | finish => exact deliver_plain hs (lt_of_outstanding hout) _
  | ownBase => exact deliver_own rfl
  | base hb => exact deliver_based hb

theorem errand_eq (hs : c.desk.Sound) (id : Nat) (d : Delivery) :
    (if (c.loadOf id).fetch = .outstanding then c.deliver id d else (c, none)) =
      (c.heard id).perform (.errand c id d) := by
  unfold heard Deed.errand
  by_cases hout : (c.loadOf id).fetch = .outstanding
  · simp only [if_pos hout]
    exact deliver_eq hs hout d
  · simp only [if_neg hout]
    rfl

theorem act_eq (hs : c.desk.Sound) (a : Action) : c.act a = (a.base c).perform (a.deed c) := by
  cases a with
  | ensure tag onSuccess onError =>
    simp only [act, Action.base, Action.deed, requested, Deed.request]
    cases Localizer.checkCallbacks onSuccess onError with
    | some f => rfl
    | none => rfl
  | define tag data base onInstalled onFailed => exact define_eq c.numbered tag data base _ _
  | install l => rfl
  | deliver id result => exact errand_eq hs id (delivery result)
  | expire id => rfl

end Deeds

/-- Only numbers were given out, or an errand taken down as over. -/
structure Alike (c b : Coordinator) : Prop where
  sound : c.desk.Sound → b.desk.Sound
  service : b.desk.service = c.desk.service
  shelf : b.desk.shelf = c.desk.shelf
  installed : b.desk.store.installed = c.desk.store.installed
  pending : b.desk.store.pending = c.desk.store.pending
  length : b.desk.store.loads.length = c.desk.store.loads.length
  tag : ∀ id, (b.loadOf id).tag = (c.loadOf id).tag
  waiters : ∀ id, (b.loadOf id).waiters = (c.loadOf id).waiters
  standing : ∀ id, (b.loadOf id).standing = (c.loadOf id).standing
  client : c.client.Numbers b.client

section Alike

variable {b c : Coordinator}

theorem alike_of_store (hstore : b.desk.store = c.desk.store)
    (hservice : b.desk.service = c.desk.service) (hshelf : b.desk.shelf = c.desk.shelf)
    (hc : c.client.Numbers b.client) : Alike c b where
  sound hs := ⟨hstore ▸ hs.store, hstore ▸ hshelf ▸ hs.shelved, hstore ▸ hs.awaits⟩
  service := hservice
  shelf := hshelf
  installed := by rw [hstore]
  pending := by rw [hstore]
  length := by rw [hstore]
  tag id := by rw [loadOf_eq, hstore, loadOf_eq]
  waiters id := by rw [loadOf_eq, hstore, loadOf_eq]
  standing id := by rw [loadOf_eq, hstore, loadOf_eq]
  client := hc

theorem alike_self (c : Coordinator) : Alike c c := alike_of_store rfl rfl rfl (.refl _)

theorem alike_numbered (c : Coordinator) : Alike c c.numbered :=
  alike_of_store rfl rfl rfl c.client.numbers_accept

theorem alike_answered (c : Coordinator) (id : Nat) : Alike c (c.answered id) := by
  have hload : ∀ j, (c.answered id).loadOf j = c.loadOf j ∨
      j = id ∧ (c.answered id).loadOf j = { c.loadOf j with fetch := .finished } :=
    fun j => Store.load_modify_cases c.desk.store id (fun l => { l with fetch := .finished }) j
  refine ⟨fun hs => (prepares_answered hs id).sound, rfl, rfl, rfl, rfl,
    Store.length_modify _ _ _, fun j => ?_, fun j => ?_, fun j => ?_, .refl _⟩
  all_goals
    rcases hload j with h | ⟨-, h⟩
    · rw [h]
    · rw [h]

theorem alike_requested (c : Coordinator) (onSuccess : Given Callback)
    (onError : Option (Given Callback)) : Alike c (c.requested onSuccess onError) := by
  unfold requested
  split
  · exact alike_self c
  · exact alike_numbered c

theorem alike_heard (c : Coordinator) (id : Nat) : Alike c (c.heard id) := by
  unfold heard
  split
  · exact alike_answered c id
  · exact alike_self c

theorem alike_base (c : Coordinator) (a : Action) : Alike c (a.base c) := by
  cases a with
  | ensure tag onSuccess onError => exact alike_requested c onSuccess onError
  | define => exact alike_numbered c
  | install l => exact alike_self c
  | deliver id result => exact alike_heard c id
  | expire id => exact alike_self c

theorem Alike.isCurrent (h : Alike c b) (id : Nat) :
    b.desk.store.isCurrent id ↔ c.desk.store.isCurrent id := by
  rw [Store.isCurrent_iff, Store.isCurrent_iff, h.length, h.pending, ← loadOf_eq, h.tag, loadOf_eq]

end Alike

section Perform

variable {c : Coordinator}

theorem later_fired (c : Coordinator) (id : Nat) : Later c (c.fired id) := by
  refine ⟨⟨rfl, rfl, List.prefix_rfl, fun h => h, Store.length_modify _ _ _, fun j => ?_,
    fun h => h, Nat.le_refl _⟩, .refl _⟩
  rcases Store.load_modify_cases c.desk.store id (fun l => { l with timer := .fired }) j with
    h | ⟨-, h⟩
  · have heq : (c.fired id).desk.store.load j = c.desk.store.load j := h
    rw [heq]
    exact .refl _
  · have heq : (c.fired id).desk.store.load j = { c.desk.store.load j with timer := .fired } := h
    rw [heq]
    exact ⟨rfl, rfl, rfl, fun _ => rfl⟩

theorem isCurrent_fired (c : Coordinator) (id j : Nat) :
    (c.fired id).desk.store.isCurrent j ↔ c.desk.store.isCurrent j := by
  have hl := later_fired c id
  have htag : ((c.fired id).desk.store.load j).tag = (c.desk.store.load j).tag :=
    (hl.desk.load j).tag
  rw [Store.isCurrent_iff, Store.isCurrent_iff, hl.desk.length, htag]
  rfl

/-- A deed only settles loads and installs lexicons, or it only queues a waiter. -/
theorem perform_cases (hs : c.desk.Sound) (deed : Deed) :
    Later c (c.perform deed).1 ∨ ∃ tag w id d, deed = .ask tag w ∧
      c.desk.Queues tag w id d ∧ c.perform deed = ({ c with desk := d }, none) := by
  cases deed with
  | nothing raised => exact Or.inl (.refl c)
  | ask tag w =>
    rcases ensure_cases hs tag w with ⟨-, heq⟩ | ⟨id, d, heq, hq⟩
    · left
      rw [perform, heq]
      exact (take_keeps hs _).2
    · exact Or.inr ⟨tag, w, id, d, rfl, hq, heq⟩
  | turn t => exact Or.inl (take_keeps hs t).2
  | expire id =>
    left
    have hf := later_fired c id
    rw [perform]
    generalize c.elapse id = s, elapses hs id = h
    cases h with
    | never => exact .refl c
    | late => exact hf
    | ends _ he _ => exact hf.trans (he.later.trans (announce_keeps id _ he.sound).2)

/-- What holds of who waits for which load is kept by an action if it is kept where a waiter is
queued. -/
theorem kept_act {P : Coordinator → Prop} (hs : c.desk.Sound) (a : Action) (h : P c)
    (hbase : P c → P (a.base c)) (hlater : ∀ {d}, P (a.base c) → Later (a.base c) d → P d)
    (hqueue : ∀ {tag w id d}, P (a.base c) → a.deed c = .ask tag w →
      (a.base c).desk.Queues tag w id d → P { a.base c with desk := d }) :
    P (c.act a).1 := by
  have hb := hbase h
  rw [act_eq hs]
  rcases perform_cases ((alike_base c a).sound hs) (a.deed c) with hl | ⟨tag, w, id, d, hd, hq, heq⟩
  · exact hlater hb hl
  · rw [heq]
    exact hqueue hb hd hq

end Perform

/-- Who waits for a load of a tag in a run of a coordinator: a caller, a definition on top of the
tag, or another load that was given to have the tag as its base. -/
inductive Fits (c : Coordinator) (tag : String) : Waiter Success Failure → Prop where
  | caller {request onSuccess onError} : Fits c tag (callerWaiter request onSuccess onError)
  | definition {request t data onInstalled onFailed} (ht : tag ≠ t) :
      Fits c tag (definitionWaiter t tag data (Option.map (.caller request) onInstalled)
        (Option.map (.caller request) onFailed))
  | load {id data} (hid : id < c.desk.store.loads.length) (ht : tag ≠ (c.loadOf id).tag) :
      Fits c tag (loadWaiter id tag data)

def Fit (c : Coordinator) : Prop := ∀ j, ∀ w ∈ (c.loadOf j).waiters, Fits c (c.loadOf j).tag w

section Fit

variable {c d : Coordinator} {tag : String} {w : Waiter Success Failure}

theorem Fits.mono (h : Fits c tag w)
    (hlen : c.desk.store.loads.length ≤ d.desk.store.loads.length)
    (htag : ∀ id, id < c.desk.store.loads.length → (d.loadOf id).tag = (c.loadOf id).tag) :
    Fits d tag w := by
  cases h with
  | caller => exact .caller
  | definition ht => exact .definition ht
  | load hid ht =>
    refine .load (Nat.lt_of_lt_of_le hid hlen) ?_
    rwa [htag _ hid]

theorem Fit.of_eq (h : Fit c)
    (hlen : c.desk.store.loads.length ≤ d.desk.store.loads.length)
    (htag : ∀ id, (d.loadOf id).tag = (c.loadOf id).tag)
    (hwaiters : ∀ id, (d.loadOf id).waiters = (c.loadOf id).waiters) : Fit d := by
  intro j w hw
  rw [hwaiters] at hw
  rw [htag]
  exact (h j w hw).mono hlen fun id _ => htag id

theorem Fit.later (h : Fit c) (hl : Later c d) : Fit d :=
  h.of_eq (Nat.le_of_eq hl.desk.length.symm) (fun id => (hl.desk.load id).tag)
    fun id => (hl.desk.load id).waiters

theorem Fit.alike (h : Fit c) (ha : Alike c d) : Fit d :=
  h.of_eq (Nat.le_of_eq ha.length.symm) ha.tag ha.waiters

theorem Fit.queued {q : Nat} {e : Desk Success Failure} (h : Fit c) (hs : c.desk.Sound)
    (hq : c.desk.Queues tag w q e) (hw : Fits c tag w) : Fit { c with desk := e } := by
  have hmono : ∀ {t x}, Fits c t x → Fits { c with desk := e } t x := fun hx =>
    hx.mono hq.length_le fun _ hid => hq.tag_eq hs.store hid
  intro j x hx
  by_cases hj : j = q
  · subst hj
    have htag : (({ c with desk := e } : Coordinator).loadOf j).tag = tag := hq.tag
    rcases List.mem_append.mp (hq.waiters ▸ hx) with hx | hx
    · have hold := h j x hx
      rw [loadOf_eq, ← hq.tag_eq hs.store (Store.lt_of_waiter hx)] at hold
      exact hmono hold
    · obtain rfl := List.mem_singleton.mp hx
      rw [htag]
      exact hmono hw
  · rw [loadOf_eq, hq.other j hj] at hx ⊢
    exact hmono (h j x hx)

theorem ask_of_definition {t : String} {data : Value} {base : Option String}
    {installed failed : Option Reporter}
    (h : Deed.definition t data base installed failed = .ask tag w) :
    tag ≠ t ∧ ∃ entries, w = definitionWaiter t tag entries installed failed := by
  unfold Deed.definition at h
  split at h
  · contradiction
  · contradiction
  · split at h
    · contradiction
    · rename_i hb
      cases h
      exact ⟨hb, _, rfl⟩

theorem ask_of_request {number : Nat} {t : String} {onSuccess : Given Callback}
    {onError : Option (Given Callback)}
    (h : Deed.request number t onSuccess onError = .ask tag w) :
    w = callerWaiter number onSuccess onError := by
  unfold Deed.request at h
  split at h
  · contradiction
  · cases h
    rfl

theorem ask_of_errand {id : Nat} {x : Delivery} (h : Deed.errand c id x = .ask tag w) :
    (c.loadOf id).fetch = .outstanding ∧ tag ≠ (c.loadOf id).tag ∧
      ∃ data, x = .resource ⟨data, some tag⟩ ∧ w = loadWaiter id tag data := by
  rcases errand_concludes h with h | ⟨hout, h⟩
  · contradiction
  · cases h with
    | base hb => exact ⟨hout, hb, _, rfl, rfl⟩

theorem fits_of_ask {a : Action} (ha : a.deed c = .ask tag w) : Fits (a.base c) tag w := by
  cases a with
  | ensure t onSuccess onError =>
    obtain rfl := ask_of_request ha
    exact .caller
  | define t data base onInstalled onFailed =>
    obtain ⟨ht, entries, rfl⟩ := ask_of_definition ha
    exact .definition ht
  | install l => contradiction
  | deliver id result =>
    obtain ⟨hout, hb, data, -, rfl⟩ := ask_of_errand ha
    have halike := alike_heard c id
    refine .load ?_ ?_
    · rw [Action.base, halike.length]
      exact lt_of_outstanding hout
    · rwa [Action.base, halike.tag]
  | expire id => contradiction

theorem fit_act (hs : c.desk.Sound) (h : Fit c) (a : Action) : Fit (c.act a).1 :=
  kept_act hs a h (fun h => h.alike (alike_base c a)) (fun h hl => h.later hl)
    fun h hd hq => h.queued ((alike_base c a).sound hs) hq (fits_of_ask hd)

theorem fit_run (hs : c.Sound) (h : Fit c) (as : List Action) : Fit (run c as) := by
  induction as generalizing c with
  | nil => exact h
  | cons a as ih => exact ih (Driver.sound_step (d := driver) hs a) (fit_act hs.desk h a)

theorem fit_start (service : Service) (client : Client) : Fit (start service client) :=
  fun _ _ hw => absurd hw List.not_mem_nil

end Fit

end Coordinator

end Phrasebook
