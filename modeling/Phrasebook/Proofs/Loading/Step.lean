import Phrasebook.Proofs.Loading.Queue
import Phrasebook.Proofs.Number.Quotient

/-!
# Steps of a coordinator

A step first prepares: it numbers a request, queues a waiter, or takes down that an errand is over.
Then it takes one turn, or settles one load and announces it. `Move` says this of every step, and
`Coordinator.Sound` is what every step preserves.
-/

namespace Phrasebook

def Ticket.Issued (c : Client) : Ticket → Prop
  | .request id => id < c.requests
  | .promise id => id < c.promises.length

/-- Requests and promises were numbered, and nothing else was done. -/
structure Client.Numbers (c c' : Client) : Prop where
  requests : c.requests ≤ c'.requests
  promises : ∃ n, c'.promises = c.promises ++ List.replicate n .pending
  events : c'.events = c.events
  languages : c'.languages = c.languages
  factory : c'.factory = c.factory
  defaultDomain : c'.defaultDomain = c.defaultDomain

namespace Client

variable {c d e : Client}

theorem Numbers.refl (c : Client) : Numbers c c :=
  ⟨Nat.le_refl _, ⟨0, by simp⟩, rfl, rfl, rfl, rfl⟩

theorem Numbers.trans (h : Numbers c d) (j : Numbers d e) : Numbers c e where
  requests := Nat.le_trans h.requests j.requests
  promises := by
    obtain ⟨m, hm⟩ := h.promises
    obtain ⟨n, hn⟩ := j.promises
    exact ⟨m + n, by rw [hn, hm, List.append_assoc, List.replicate_append_replicate]⟩
  events := j.events.trans h.events
  languages := j.languages.trans h.languages
  factory := j.factory.trans h.factory
  defaultDomain := j.defaultDomain.trans h.defaultDomain

theorem Numbers.issued (h : Numbers c d) {k : Ticket} (hk : k.Issued c) : k.Issued d := by
  cases k with
  | request id => exact Nat.lt_of_lt_of_le hk h.requests
  | promise id =>
    obtain ⟨n, hn⟩ := h.promises
    change id < d.promises.length
    rw [hn, List.length_append]
    exact Nat.lt_of_lt_of_le hk (Nat.le_add_right _ _)

theorem Numbers.seen (h : Numbers c d) {k : Ticket} (hk : k.Issued c) : d.seen k = c.seen k := by
  cases k with
  | request id => simp only [Client.seen, log, h.events]
  | promise id =>
    obtain ⟨n, hn⟩ := h.promises
    simp only [Client.seen, hn, List.getElem?_append_left hk]

theorem Later.issued (h : Later c d) {k : Ticket} : k.Issued d ↔ k.Issued c := by
  cases k with
  | request id => simp only [Ticket.Issued, h.requests]
  | promise id => simp only [Ticket.Issued, h.promises]

theorem numbers_accept (c : Client) : c.Numbers c.accept.2 :=
  ⟨Nat.le_succ _, ⟨0, by simp [accept]⟩, rfl, rfl, rfl, rfl⟩

theorem numbers_promise (c : Client) : c.Numbers c.promise.2 :=
  ⟨Nat.le_refl _, ⟨1, rfl⟩, rfl, rfl, rfl, rfl⟩

end Client

namespace Coordinator

def definitionWaiter (tag base : String) (data : LexiconData) (installed failed : Option Reporter) :
    Waiter Success Failure :=
  ⟨.extendDefinition tag base data installed, some (.abandonDefinition tag base failed)⟩

def loadWaiter (id : Nat) (base : String) (data : Value) : Waiter Success Failure :=
  ⟨.extendLoad id base data, some (.abandonLoad id base)⟩

inductive Occasion where
  | call
  | answer (load : Nat)
  | timer (load : Nat)

/-- What a step does before anybody is told anything. Waiters that it queues hold tickets in `N`
at most, which were given out. -/
structure Prepares (N : Ticket → Prop) (o : Occasion) (c p : Coordinator) : Prop where
  sound : p.desk.Sound
  service : p.desk.service = c.desk.service
  installed : p.desk.store.installed = c.desk.store.installed
  length : c.desk.store.loads.length ≤ p.desk.store.loads.length
  current : ∀ {id}, id < c.desk.store.loads.length →
    (p.desk.store.isCurrent id ↔ c.desk.store.isCurrent id)
  tag : ∀ {id}, id < c.desk.store.loads.length → (p.loadOf id).tag = (c.loadOf id).tag
  standing : ∀ {id}, id < c.desk.store.loads.length →
    (p.loadOf id).standing = (c.loadOf id).standing
  waiters : ∀ id, ∃ new, (p.loadOf id).waiters = (c.loadOf id).waiters ++ new ∧
    ∀ w ∈ new, ∀ k, w.Holds k → N k
  fetch : ∀ {id}, id < c.desk.store.loads.length → o ≠ .answer id →
    (p.loadOf id).fetch = (c.loadOf id).fetch
  started : ∀ {id}, c.desk.store.loads.length ≤ id → id < p.desk.store.loads.length →
    c.desk.service.hasLoader → (p.loadOf id).fetch = .outstanding
  ended : ∀ {id}, o = .answer id → (p.loadOf id).fetch ≠ .outstanding
  client : c.client.Numbers p.client
  issued : ∀ k, N k → k.Issued p.client

/-- What a step does before it queues a waiter. -/
structure Readies (N : Ticket → Prop) (o : Occasion) (c p : Coordinator) : Prop
    extends Prepares N o c p where
  same : ∀ id, (p.loadOf id).waiters = (c.loadOf id).waiters
  out : ∀ {id}, o = .answer id → (c.loadOf id).fetch = .outstanding

theorem loadOf_of_not_lt {c : Coordinator} {id : Nat} (h : ¬ id < c.desk.store.loads.length) :
    c.loadOf id = .new "" := by
  rw [loadOf, List.getElem?_eq_none (Nat.le_of_not_lt h), Option.getD_none]

theorem lt_of_fetch {c : Coordinator} {id : Nat} (h : (c.loadOf id).fetch ≠ .unset) :
    id < c.desk.store.loads.length :=
  Decidable.byContradiction fun hlt => h (congrArg Load.fetch (loadOf_of_not_lt hlt))

theorem lt_of_outstanding {c : Coordinator} {id : Nat} (h : (c.loadOf id).fetch = .outstanding) :
    id < c.desk.store.loads.length :=
  lt_of_fetch (h ▸ nofun)

section Prepares

variable {N : Ticket → Prop} {o : Occasion} {c d : Coordinator}

theorem prepares_of_store (hs : c.desk.Sound) (hstore : d.desk.store = c.desk.store)
    (hservice : d.desk.service = c.desk.service)
    (hshelf : d.desk.shelf.length = c.desk.shelf.length) (hc : c.client.Numbers d.client)
    (hN : ∀ k, N k → k.Issued d.client)
    (ho : ∀ {id}, o = .answer id → (c.loadOf id).fetch ≠ .outstanding) : Prepares N o c d where
  sound := ⟨hstore ▸ hs.store, hstore ▸ hshelf ▸ hs.shelved, hstore ▸ hs.awaits⟩
  service := hservice
  installed := by rw [hstore]
  length := Nat.le_of_eq (by rw [hstore])
  current _ := by rw [hstore]
  tag _ := by rw [loadOf_eq, hstore, loadOf_eq]
  standing _ := by rw [loadOf_eq, hstore, loadOf_eq]
  waiters id := ⟨[], by rw [loadOf_eq, hstore, loadOf_eq, List.append_nil],
    fun _ hw => absurd hw List.not_mem_nil⟩
  fetch _ _ := by rw [loadOf_eq, hstore, loadOf_eq]
  started hid hlt _ := by
    rw [hstore] at hlt
    exact absurd hlt (Nat.not_lt_of_le hid)
  ended h := by
    rw [loadOf_eq, hstore, ← loadOf_eq]
    exact ho h
  client := hc
  issued := hN

theorem prepares_self {o : Occasion} (hs : c.desk.Sound)
    (ho : ∀ {id}, o = .answer id → (c.loadOf id).fetch ≠ .outstanding) :
    Prepares (fun _ => False) o c c :=
  prepares_of_store hs rfl rfl rfl (.refl _) nofun ho

theorem readies_of_store (hs : c.desk.Sound) (hstore : d.desk.store = c.desk.store)
    (hservice : d.desk.service = c.desk.service)
    (hshelf : d.desk.shelf.length = c.desk.shelf.length) (hc : c.client.Numbers d.client)
    (hN : ∀ k, N k → k.Issued d.client) : Readies N .call c d where
  toPrepares := prepares_of_store hs hstore hservice hshelf hc hN nofun
  same _ := by rw [loadOf_eq, hstore, loadOf_eq]
  out := nofun

theorem Readies.queued {tag : String} {w : Waiter Success Failure} {q : Nat}
    {e : Desk Success Failure} (h : Readies N o c d) (hq : d.desk.Queues tag w q e)
    (hw : w.onSuccess.Awaits tag) (hk : ∀ k, w.Holds k → N k) :
    Prepares N o c { d with desk := e } where
  sound := hq.sound h.sound hw
  service := hq.service.trans h.service
  installed := hq.installed.trans h.installed
  length := Nat.le_trans h.length hq.length_le
  current hid :=
    (hq.current_iff h.sound.store (Nat.lt_of_lt_of_le hid h.length)).trans (h.current hid)
  tag hid := (hq.tag_eq h.sound.store (Nat.lt_of_lt_of_le hid h.length)).trans (h.tag hid)
  standing hid :=
    (hq.standing_eq h.sound.store (Nat.lt_of_lt_of_le hid h.length)).trans (h.standing hid)
  waiters j := by
    by_cases he : j = q
    · subst he
      refine ⟨[w], hq.waiters.trans (congrArg (· ++ [w]) (h.same j)), ?_⟩
      intro x hx
      obtain rfl := List.mem_singleton.mp hx
      exact hk
    · refine ⟨[], ?_, fun _ hw => absurd hw List.not_mem_nil⟩
      rw [List.append_nil, ← h.same j, loadOf_eq, hq.other j he, loadOf_eq]
  fetch hid ho := (hq.fetch_eq (Nat.lt_of_lt_of_le hid h.length)).trans (h.fetch hid ho)
  started {j} hj hlt hl := by
    by_cases hd : j < d.desk.store.loads.length
    · exact (hq.fetch_eq hd).trans (h.started hj hd hl)
    · rcases (hq.length j).mp hlt with hlt | rfl
      · exact absurd hlt hd
      · rcases hq.was with hp | ⟨-, he⟩
        · exact absurd (h.sound.store.pending_load hp).1 hd
        · exact hq.started he (h.service ▸ hl)
  ended {j} ho := by
    have hj := Nat.lt_of_lt_of_le (lt_of_outstanding (h.out ho)) h.length
    rw [loadOf_eq, hq.fetch_eq hj]
    exact h.ended ho
  client := h.client
  issued := h.issued

theorem sound_congr (hs : c.desk.Sound)
    (hlen : d.desk.store.loads.length = c.desk.store.loads.length)
    (hpending : d.desk.store.pending = c.desk.store.pending)
    (hinstalled : d.desk.store.installed = c.desk.store.installed)
    (hshelf : d.desk.shelf = c.desk.shelf)
    (htag : ∀ j, (d.loadOf j).tag = (c.loadOf j).tag)
    (hwaiters : ∀ j, (d.loadOf j).waiters = (c.loadOf j).waiters)
    (hstanding : ∀ j, (d.loadOf j).standing = (c.loadOf j).standing) : d.desk.Sound := by
  refine ⟨⟨?pending_load, ?standing, ?apart⟩, ?shelved, ?awaits⟩
  case pending_load =>
    intro t j hp
    rw [hpending] at hp
    rw [hlen, ← loadOf_eq, htag]
    exact hs.store.pending_load hp
  case standing =>
    intro j hj
    rw [hlen] at hj
    rw [← loadOf_eq, hstanding, htag, hpending]
    exact hs.store.standing hj
  case apart =>
    intro t ht
    rw [Store.contains, hinstalled] at ht
    rw [hpending]
    exact hs.store.apart ht
  case shelved =>
    intro t place hp
    rw [Store.get?, hinstalled] at hp
    rw [hshelf]
    exact hs.shelved hp
  case awaits =>
    intro j w hw
    rw [← loadOf_eq, hwaiters] at hw
    rw [← loadOf_eq, htag]
    exact hs.awaits hw

theorem prepares_of_modify {id : Nat} {f : Load Success Failure → Load Success Failure}
    (hs : c.desk.Sound) (hstore : d.desk.store = c.desk.store.modify id f)
    (hservice : d.desk.service = c.desk.service) (hshelf : d.desk.shelf = c.desk.shelf)
    (hc : d.client = c.client)
    (hf : ∀ l, (f l).tag = l.tag ∧ (f l).waiters = l.waiters ∧ (f l).standing = l.standing)
    (ho : o = .answer id ∧ (∀ l, (f l).fetch = .finished) ∨
      o = .timer id ∧ ∀ l, (f l).fetch = l.fetch) : Prepares (fun _ => False) o c d := by
  have hlen : d.desk.store.loads.length = c.desk.store.loads.length := by
    rw [hstore, Store.length_modify]
  have hpending : d.desk.store.pending = c.desk.store.pending := by rw [hstore]; rfl
  have hinstalled : d.desk.store.installed = c.desk.store.installed := by rw [hstore]; rfl
  have hload : ∀ j, d.loadOf j = c.loadOf j ∨
      j = id ∧ d.loadOf j = f (c.loadOf j) := by
    intro j
    rw [loadOf_eq, loadOf_eq, hstore]
    exact Store.load_modify_cases _ id f j
  have htag : ∀ j, (d.loadOf j).tag = (c.loadOf j).tag := by
    intro j
    rcases hload j with h | ⟨-, h⟩
    · rw [h]
    · rw [h, (hf _).1]
  have hwaiters : ∀ j, (d.loadOf j).waiters = (c.loadOf j).waiters := by
    intro j
    rw [loadOf_eq, hstore]
    exact Store.waiters_modify (fun l => (hf l).2.1) _ id j
  have hstanding : ∀ j, (d.loadOf j).standing = (c.loadOf j).standing := by
    intro j
    rcases hload j with h | ⟨-, h⟩
    · rw [h]
    · rw [h, (hf _).2.2]
  refine ⟨sound_congr hs hlen hpending hinstalled hshelf htag hwaiters hstanding, hservice,
    hinstalled, Nat.le_of_eq hlen.symm, ?current, fun _ => htag _, fun _ => hstanding _,
    fun j => ?waiters, ?fetch, ?started, ?ended, hc ▸ .refl _, nofun⟩
  case current =>
    intro j _
    rw [Store.isCurrent_iff, Store.isCurrent_iff, hlen, hpending, ← loadOf_eq, htag, loadOf_eq]
  case waiters =>
    refine ⟨[], by rw [hwaiters, List.append_nil], ?_⟩
    exact fun _ hw => absurd hw List.not_mem_nil
  case fetch =>
    intro j _ hj
    rcases hload j with h | ⟨rfl, h⟩
    · rw [h]
    · rw [h]
      exact (ho.resolve_left fun ha => hj ha.1).2 _
  case started =>
    intro j hj hlt
    exact absurd (hlen ▸ hlt) (Nat.not_lt_of_le hj)
  case ended =>
    intro j hj hout
    rcases ho with ⟨ha, hfinished⟩ | ⟨ht, -⟩
    · obtain rfl := Occasion.answer.inj (ha.symm.trans hj)
      have hlt := hlen ▸ lt_of_outstanding hout
      rw [loadOf_eq, hstore, Store.load_modify_self f hlt, hfinished] at hout
      contradiction
    · rw [ht] at hj
      contradiction

end Prepares

/-- All that a step can do. -/
inductive Move (N : Ticket → Prop) (o : Occasion) (c : Coordinator) : Step → Prop where
  | idle {p f} (h : Prepares N o c p) : Move N o c (p, f)
  | turn {p t} (h : Prepares N o c p) (ht : ∀ k, t.Holds k → N k) : Move N o c (take announce p t)
  | ends {p e id outcome} (h : Prepares N o c p) (he : Ends p id outcome e) :
      Move N o c (announce e id outcome)

section Moves

variable {N : Ticket → Prop} {o : Occasion} {b c : Coordinator}

theorem move_ensure (hb : Readies N o b c) {tag : String} {w : Waiter Success Failure}
    (hw : w.onSuccess.Awaits tag) (hN : ∀ k, w.Holds k → N k) :
    Move N o b (faultOf (c.ensure tag w)) := by
  rcases ensure_cases hb.sound tag w with ⟨-, heq⟩ | ⟨id, d, heq, hq⟩
  · rw [heq]
    exact .turn hb.toPrepares (fun k hk => hN k (Or.inl hk))
  · rw [heq]
    exact .idle (hb.queued hq hw hN)

theorem move_define (hb : Readies N o b c) (tag : String) (data : Value) (base : Option String)
    {installed failed : Option Reporter} (hi : ∀ r ∈ installed, ∀ k, r.Holds k → N k)
    (hf : ∀ r ∈ failed, ∀ k, r.Holds k → N k) :
    Move N o b (c.define tag data base installed failed) := by
  have hidle : ∀ f, Move N o b (c, f) := fun _ => .idle hb.toPrepares
  unfold define
  split
  · exact hidle _
  · rename_i entries _
    refine Move.turn (t := .install (.ofData tag entries) installed) hb.toPrepares ?_
    rintro k ⟨r, hr, hk⟩
    exact hi r hr k hk
  · rename_i entries base _
    split
    · exact hidle _
    · refine move_ensure (w := definitionWaiter tag base entries installed failed) hb rfl ?_
      rintro k (⟨r, hr, hk⟩ | ⟨_, ⟨rfl⟩, r, hr, hk⟩)
      · exact hi r hr k hk
      · exact hf r hr k hk

def answered (c : Coordinator) (id : Nat) : Coordinator :=
  { c with desk := c.desk.answer id (c.loadOf id).tag }

theorem prepares_answered (hs : c.desk.Sound) (id : Nat) :
    Prepares (fun _ => False) (.answer id) c (c.answered id) :=
  prepares_of_modify hs rfl rfl rfl rfl (fun _ => ⟨rfl, rfl, rfl⟩) (Or.inl ⟨rfl, fun _ => rfl⟩)

theorem readies_answered (hs : c.desk.Sound) {id : Nat}
    (hout : (c.loadOf id).fetch = .outstanding) :
    Readies (fun _ => False) (.answer id) c (c.answered id) where
  toPrepares := prepares_answered hs id
  same j := Store.waiters_modify (f := fun l => { l with fetch := .finished }) (fun _ => rfl) _ id j
  out ho := Occasion.answer.inj ho ▸ hout

section Deliver

variable {id : Nat} {data : Value} {base : String}

theorem deliver_fault {f : Fault} {reason : String} (c : Coordinator) (id : Nat)
    (hf : f.text = .ok reason) :
    c.deliver id (.fault f) = take announce (c.answered id) (.giveUp id (.failed reason) f) := by
  simp only [deliver, hf]
  rfl

theorem deliver_wordless {f g : Fault} (c : Coordinator) (id : Nat) (hf : f.text = .error g) :
    c.deliver id (.fault f) = (c.answered id, some g) := by
  simp only [deliver, hf]
  rfl

theorem deliver_plain (hs : c.desk.Sound) (hid : id < c.desk.store.loads.length) (data : Value) :
    c.deliver id (.resource ⟨data, none⟩) =
      take announce (c.answered id) (.finish id data none) := by
  have htag := (prepares_answered hs id).tag hid
  rw [take, htag]
  rfl

theorem deliver_own (hb : base = (c.loadOf id).tag) :
    c.deliver id (.resource ⟨data, some base⟩) =
      take announce (c.answered id) (.giveUp id .ownBase (.ownBaseResource base)) := by
  subst hb
  simp only [deliver, if_pos, take]
  rfl

theorem deliver_based (hb : base ≠ (c.loadOf id).tag) :
    c.deliver id (.resource ⟨data, some base⟩) =
      faultOf ((c.answered id).ensure base (loadWaiter id base data)) := by
  simp only [deliver, if_neg hb]
  rfl

end Deliver

theorem move_deliver (hs : c.desk.Sound) {id : Nat} (hout : (c.loadOf id).fetch = .outstanding)
    (d : Delivery) : Move (fun _ => False) (.answer id) c (c.deliver id d) := by
  have hp := prepares_answered hs id
  have hid := lt_of_outstanding hout
  cases d with
  | fault f =>
    cases hf : f.text with
    | ok reason =>
      rw [deliver_fault c id hf]
      exact .turn hp nofun
    | error g =>
      rw [deliver_wordless c id hf]
      exact .idle hp
  | other => exact .idle hp
  | resource r =>
    obtain ⟨data, _ | base⟩ := r
    · rw [deliver_plain hs hid]
      exact .turn hp nofun
    · by_cases hb : base = (c.loadOf id).tag
      · rw [deliver_own hb]
        exact .turn hp nofun
      · rw [deliver_based hb]
        refine move_ensure (readies_answered hs hout) rfl ?_
        rintro k (h | ⟨_, ⟨rfl⟩, h⟩)
        · exact h.elim
        · exact h.elim

def fired (c : Coordinator) (id : Nat) : Coordinator := { c with desk := c.desk.fire id }

theorem prepares_fired (hs : c.desk.Sound) (id : Nat) :
    Prepares (fun _ => False) (.timer id) c (c.fired id) :=
  prepares_of_modify hs rfl rfl rfl rfl (fun _ => ⟨rfl, rfl, rfl⟩) (Or.inr ⟨rfl, fun _ => rfl⟩)

theorem Ends.note {d : Coordinator} {id : Nat} {outcome : Option Fault} (h : Ends c id outcome d)
    (n : Notice) : Ends c id outcome (d.note n) where
  settles := h.settles
  later := by
    have hd := h.later.desk
    exact ⟨⟨hd.service, hd.calls, hd.shelf, hd.contains, hd.length, hd.load, hd.pending, hd.size⟩,
      h.later.client⟩
  sound := ⟨h.sound.store, h.sound.shelved, h.sound.awaits⟩
  arrived := h.arrived
  error := h.error
  client := h.client

theorem shelves_settle (d : Desk Success Failure) (id : Nat) (e : Standing) (t : String) :
    Shelves d (d.withStore (d.store.settle id e)) t none :=
  ⟨(List.append_nil _).symm, Store.installed_settle d.store id e⟩

theorem ends_detached {id : Nat} (hs : c.desk.Sound) (hc : c.desk.store.isCurrent id)
    (why : LoadFailure) (cause : Option Fault) :
    Ends c id (some (.load (c.loadOf id).tag why cause))
      { c with desk := c.desk.withStore (c.desk.store.settle id .abandoned) } := by
  refine ends_of_settles hs (Store.settles_settle hc (standingOf_ne (some .pending)))
    (shelves_settle c.desk id .abandoned _) nofun ?_ ⟨rfl, rfl⟩
  rintro f ⟨rfl⟩
  exact ⟨why, cause, rfl⟩

theorem lt_of_fired {id : Nat} (hc : (c.fired id).desk.store.isCurrent id) :
    id < c.desk.store.loads.length := by
  have hlt := (Store.isCurrent_iff.mp hc).1
  rwa [fired, Desk.fire, Desk.withStore, Store.length_modify] at hlt

/-- What becomes of a timer: it never comes to its end, or its load was settled before, or it gives
the load up. -/
inductive Elapses (c : Coordinator) (id : Nat) : Step → Prop where
  | never (h : c.desk.service.timeout.duration.elapses = false) : Elapses c id (c, none)
  | late (hc : ¬ (c.fired id).desk.store.isCurrent id) : Elapses c id (c.fired id, none)
  | ends {e seconds} (h : c.desk.service.timeout.duration.general? 6 = some seconds)
      (he : Ends (c.fired id) id (some (.load (c.loadOf id).tag (.timedOut seconds) none)) e)
      (hs : ∀ t, Shelves (c.fired id).desk e.desk t none) :
      Elapses c id (announce e id (some (.load (c.loadOf id).tag (.timedOut seconds) none)))

/-- A time that can be waited for can be written, so that a load is never given up in silence. -/
theorem expire_current {id : Nat} (hs : c.desk.Sound) (hc : (c.fired id).desk.store.isCurrent id)
    (hl : c.desk.service.timeout.duration.elapses = true) : Elapses c id (c.expire id) := by
  have hp := prepares_fired hs id
  have hdetach : (c.desk.fire id).store.detach id =
      (true, (c.desk.fire id).store.settle id .abandoned) := if_pos hc
  have hservice : (c.desk.fire id).service = c.desk.service := rfl
  obtain ⟨short, hshort⟩ := Option.isSome_iff_exists.mp (Timeout.general?_isSome hl 3)
  obtain ⟨seconds, hseconds⟩ := Option.isSome_iff_exists.mp (Timeout.general?_isSome hl 6)
  have he := (ends_detached hp.sound hc (.timedOut seconds) none).note
    (.timedOut (c.loadOf id).tag short)
  rw [hp.tag (lt_of_fired hc)] at he
  have helapses := Elapses.ends hseconds he (shelves_settle (c.desk.fire id) id .abandoned)
  simp only [expire, hdetach, hservice, hshort, hseconds]
  exact helapses

theorem elapses (hs : c.desk.Sound) (id : Nat) : Elapses c id (c.elapse id) := by
  unfold elapse
  cases hl : c.desk.service.timeout.duration.elapses with
  | false => exact .never hl
  | true =>
    rw [if_pos rfl]
    by_cases hc : (c.fired id).desk.store.isCurrent id
    · exact expire_current hs hc hl
    · have hdetach : (c.desk.fire id).store.detach id = (false, (c.desk.fire id).store) :=
        if_neg hc
      simp only [expire, hdetach]
      exact .late hc

theorem move_elapse (hs : c.desk.Sound) (id : Nat) :
    Move (fun _ => False) (.timer id) c (c.elapse id) := by
  have hp := prepares_fired hs id
  generalize c.elapse id = s, elapses hs id = h
  cases h with
  | never => exact .idle (prepares_self hs nofun)
  | late => exact .idle hp
  | ends _ he _ => exact .ends hp he

end Moves

end Coordinator

end Phrasebook
