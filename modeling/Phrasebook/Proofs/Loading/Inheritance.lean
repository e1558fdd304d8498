import Mathlib.Logic.Relation
import Phrasebook.Proofs.Lexicon.Content
import Phrasebook.Proofs.Loading.Deed

/-!
# What loaded lexicons are made of

A loader that answers each tag always in the same way settles what the lexicon of a tag can be: its
data, over the lexicon of its base. A base is on the shelf before the lexicons that are made of it,
so places fall along a chain of bases, and a chain that is installed never comes back to a tag.
-/

namespace Phrasebook

namespace Coordinator

/-- The resource for a tag is well-shaped, and has this base and these entries. -/
def Describes (answer : String → Delivery) (t : String) (base : Option String)
    (entries : LexiconData) : Prop :=
  ∃ data, answer t = .resource ⟨data, base⟩ ∧ LexiconData.ofValue data = .ok entries

/-- The lexicon of a base, if there is to be one, is installed below a place. -/
inductive Beneath (d : Desk Success Failure) (place : Nat) :
    Option String → Option Lexicon → Prop where
  | bottom : Beneath d place none none
  | on {b l q} (hq : q < place) (hb : d.store.get? b = some q) (hl : d.shelf[q]? = some l) :
      Beneath d place (some b) (some l)

/-- Every lexicon that is installed is the one that its resource describes. -/
def Founded (answer : String → Delivery) (d : Desk Success Failure) : Prop :=
  ∀ t place, d.store.get? t = some place → ∃ base entries under,
    Describes answer t base entries ∧ Beneath d place base under ∧
      d.shelf[place]? = some (overlaid t under entries)

/-- What a waiter is to do goes back to a request or to a resource. -/
def Follows (answer : String → Delivery) (s : Store Nat Success Failure) : Success → Prop
  | .listener _ => True
  | .extendLoad id base data =>
    id < s.loads.length ∧ answer (s.load id).tag = .resource ⟨data, some base⟩
  | .extendDefinition .. => False

def Turn.Follows (answer : String → Delivery) (s : Store Nat Success Failure) : Turn → Prop
  | success x => Coordinator.Follows answer s x
  -- a resource with a base is only ever finished by its continuation
  | finish id data base =>
    id < s.loads.length ∧ answer (s.load id).tag = .resource ⟨data, none⟩ ∧ base = none
  | install .. => False
  | failure .. | giveUp .. => True

structure Inherits (answer : String → Delivery) (d : Desk Success Failure) : Prop where
  founded : Founded answer d
  waiter : ∀ {j w}, w ∈ (d.store.load j).waiters → Follows answer d.store w.onSuccess

section Founded

variable {answer : String → Delivery} {d d' : Desk Success Failure} {place : Nat}
  {base : Option String} {under : Option Lexicon}

theorem Beneath.mono (h : Beneath d place base under)
    (hget : ∀ {t q}, d.store.get? t = some q → d'.store.get? t = some q)
    (hshelf : d.shelf <+: d'.shelf) : Beneath d' place base under := by
  cases h with
  | bottom => exact .bottom
  | on hq hb hl => exact .on hq (hget hb) (shelved_mono hshelf hl)

theorem founded_of_eq (h : Founded answer d) (hshelf : d'.shelf = d.shelf)
    (hinstalled : d'.store.installed = d.store.installed) : Founded answer d' := by
  have hget : ∀ t, d'.store.get? t = d.store.get? t := by
    intro t
    rw [Store.get?, Store.get?, hinstalled]
  intro t place hp
  rw [hget] at hp
  obtain ⟨base, entries, under, hdesc, hunder, hplace⟩ := h t place hp
  refine ⟨base, entries, under, hdesc, ?_, hshelf ▸ hplace⟩
  apply hunder.mono
  · intro u q hq
    rw [hget]
    exact hq
  · exact hshelf ▸ List.prefix_rfl

theorem Founded.shelved {t : String} {entries : LexiconData} (h : Founded answer d)
    (ht : ¬ d.store.contains t) (hdesc : Describes answer t base entries)
    (hunder : Beneath d d.shelf.length base under)
    (hs : Shelves d d' t (some (overlaid t under entries))) : Founded answer d' := by
  have hshelf : d'.shelf = d.shelf ++ [overlaid t under entries] := hs.1
  have hkeep : ∀ {u q}, d.store.get? u = some q → d'.store.get? u = some q := by
    intro u q hq
    rw [hs.get?, if_neg, hq]
    rintro rfl
    apply ht
    rw [Store.contains, Table.contains]
    exact Option.isSome_of_mem hq
  have hprefix : d.shelf <+: d'.shelf := ⟨_, hshelf.symm⟩
  intro u place hp
  rw [hs.get?] at hp
  by_cases hu : t = u
  · subst hu
    rw [if_pos rfl] at hp
    obtain rfl := Option.some.inj hp
    refine ⟨base, entries, under, hdesc, hunder.mono hkeep hprefix, ?_⟩
    rw [hshelf]
    exact List.getElem?_concat_length
  · rw [if_neg hu] at hp
    obtain ⟨base, entries, under, hdesc, hunder, hplace⟩ := h u place hp
    exact ⟨base, entries, under, hdesc, hunder.mono hkeep hprefix,
      shelved_mono hprefix hplace⟩

end Founded

/-- Nobody is told anything, which shows how a turn leaves the desk before its announcement. -/
def silent : Announce := fun c _ _ => (c, none)

section Turns

variable {answer : String → Delivery} {c : Coordinator} {d e : Desk Success Failure} {id : Nat}

theorem absent_of_current (hs : d.Sound) (hc : d.store.isCurrent id) :
    ¬ d.store.contains (d.store.load id).tag := by
  intro ht
  have hp := (Store.isCurrent_iff.mp hc).2
  rw [hs.store.apart ht] at hp
  contradiction

theorem founded_failLoad (h : Founded answer c.desk) (id : Nat) (why : LoadFailure)
    (cause : Fault) : Founded answer (failLoad silent c id why cause).1.desk := by
  have heq : (failLoad silent c id why cause).1.desk =
      (c.desk.giveUp id (c.loadOf id).tag cause).2 := by
    simp only [failLoad]
    rcases c.desk.giveUp id (c.loadOf id).tag cause with ⟨_ | _, d⟩
    · rfl
    · rfl
  rw [heq]
  by_cases hc : c.desk.store.isCurrent id
  · have hs := shelves_giveUp hc (c.loadOf id).tag cause (c.loadOf id).tag
    exact founded_of_eq h (hs.1.trans (List.append_nil _)) hs.2
  · rw [giveUp_late hc]
    exact founded_of_eq h rfl rfl

theorem founded_finish {data : Value} {base : Option String} {under : Option Lexicon}
    (hs : c.desk.Sound) (h : Founded answer c.desk)
    (ha : answer (c.loadOf id).tag = .resource ⟨data, base⟩)
    (hunder : Beneath c.desk c.desk.shelf.length base under) :
    Founded answer (finish silent c id data (overlaid (c.loadOf id).tag under)).1.desk := by
  unfold finish
  cases hd : LexiconData.ofValue data with
  | ok entries =>
    let l := overlaid (c.loadOf id).tag under entries
    have heq : (installLoaded silent c id l).1.desk =
        (c.desk.installLoaded id (c.loadOf id).tag l).2 := by
      unfold installLoaded
      rcases c.desk.installLoaded id (c.loadOf id).tag l with ⟨_ | _, d⟩
      · rfl
      · rfl
    change Founded answer (installLoaded silent c id l).1.desk
    rw [heq]
    by_cases hc : c.desk.store.isCurrent id
    · have hshelves := shelves_installLoaded hc (c.loadOf id).tag l
      rw [tag_overlaid] at hshelves
      exact h.shelved (absent_of_current hs hc) ⟨data, ha, hd⟩ hunder hshelves
    · rw [installLoaded_late hc]
      exact founded_of_eq h rfl rfl
  | error f =>
    by_cases hf : f.isShape
    · simp only [hf, if_true]
      exact founded_failLoad h id _ _
    · simp only [hf]
      exact h

theorem beneath_of_lexicon (hs : d.Sound) {b : String} {l : Lexicon} (hl : d.lexicon? b = some l) :
    Beneath d d.shelf.length (some b) (some l) := by
  obtain ⟨q, hq, hplace⟩ := Option.bind_eq_some_iff.mp hl
  exact .on (hs.shelved hq) hq hplace

theorem founded_take {t : Turn} (hs : c.desk.Sound) (h : Founded answer c.desk)
    (ht : t.Follows answer c.desk.store) : Founded answer (take silent c t).1.desk := by
  cases t with
  | success x =>
    cases x with
    | listener l =>
      simp only [take, succeed]
      exact h
    | extendLoad id base data =>
      simp only [take, succeed]
      cases hb : c.desk.lexicon? base with
      | none => exact h
      | some l =>
        have hfinish := founded_finish hs h ht.2 (beneath_of_lexicon hs hb)
        exact hfinish
    | extendDefinition tag base data r => exact ht.elim
  | failure f w =>
    cases w with
    | listener l =>
      simp only [take, fail]
      exact h
    | abandonLoad id base =>
      apply founded_failLoad
      exact founded_of_eq (d := c.desk) h rfl rfl
    | abandonDefinition tag base r =>
      simp only [take, fail]
      cases r with
      | none => exact founded_of_eq (d := c.desk) h rfl rfl
      | some r => exact founded_of_eq (d := c.desk) h rfl rfl
  | install l r => exact ht.elim
  | finish id data base =>
    obtain ⟨-, ha, rfl⟩ := ht
    exact founded_finish hs h ha .bottom
  | giveUp id why cause => exact founded_failLoad h id why cause

theorem Turn.Follows.no_definition {t : Turn} (ht : t.Follows answer d.store) (c : Coordinator) :
    t.definition? c = none := by
  cases t with
  | success x =>
    cases x with
    | extendDefinition => exact ht.elim
    | _ => rfl
  | install => exact ht.elim
  | _ => rfl

theorem Follows.mono {s s' : Store Nat Success Failure} {x : Success} (h : Follows answer s x)
    (hlen : s.loads.length ≤ s'.loads.length)
    (htag : ∀ j, j < s.loads.length → (s'.load j).tag = (s.load j).tag) :
    Follows answer s' x := by
  cases x with
  | listener => trivial
  | extendLoad id base data =>
    obtain ⟨hid, ha⟩ := h
    refine ⟨Nat.lt_of_lt_of_le hid hlen, ?_⟩
    rw [htag id hid]
    exact ha
  | extendDefinition => exact h

theorem Follows.later {x : Success} (h : Follows answer d.store x) (hl : d.Later e) :
    Follows answer e.store x := by
  apply h.mono
  · exact Nat.le_of_eq hl.length.symm
  · intro j _
    exact (hl.load j).tag

theorem Turn.Follows.later {t : Turn} (h : t.Follows answer d.store) (hl : d.Later e) :
    t.Follows answer e.store := by
  cases t with
  | success x => exact Coordinator.Follows.later h hl
  | finish id data base =>
    obtain ⟨hid, ha, hbase⟩ := h
    refine ⟨hl.length ▸ hid, ?_, hbase⟩
    rw [(hl.load id).tag]
    exact ha
  | _ => exact h

theorem Inherits.later (h : Inherits answer d) (hl : d.Later e) (hf : Founded answer e) :
    Inherits answer e where
  founded := hf
  waiter {j w} hw := by
    rw [(hl.load j).waiters] at hw
    exact (h.waiter hw).later hl

theorem Inherits.forewarn (h : Inherits answer c.desk) (id : Nat) (outcome : Option Fault) :
    Inherits answer (c.forewarn id outcome).desk := by
  apply h.later (forewarn_later c id outcome).desk
  obtain ⟨n, hn⟩ := forewarn_cases c id outcome
  rw [hn]
  exact founded_of_eq h.founded rfl rfl

theorem Inherits.turns (h : Inherits answer c.desk) (id : Nat) (outcome : Option Fault) :
    ∀ t ∈ (c.loadOf id).turns outcome, t.Follows answer c.desk.store := by
  intro t ht
  rw [Load.turns_eq] at ht
  obtain ⟨w, hw, hwt⟩ := List.mem_filterMap.mp ht
  cases outcome with
  | none =>
    obtain rfl := Option.some.inj hwt
    exact h.waiter hw
  | some f =>
    obtain ⟨x, -, rfl⟩ := Option.map_eq_some_iff.mp hwt
    trivial

theorem inherits_fanout (hs : c.desk.Sound) (ts : List Turn) :
    Inherits answer c.desk → (∀ t ∈ ts, t.Follows answer c.desk.store) →
      Inherits answer (fanout c ts).1.desk := by
  refine fanout_induction (motive := fun c ts => Inherits answer c.desk →
    (∀ t ∈ ts, t.Follows answer c.desk.store) → Inherits answer (fanout c ts).1.desk) ?_ ?_ hs ts
  · intro c _ h _
    exact h
  · intro c t ts hs nested rest h hts
    have ht := hts t List.mem_cons_self
    have hl := (take_keeps hs t).2.desk
    have hsilent := founded_take hs h.founded ht
    have htake : Inherits answer (take announce c t).1.desk := by
      have htaken := taken hs t
      generalize hact : (fun announce => take announce c t) = act at htaken
      have happly : ∀ announce, take announce c t = act announce := fun a => congrFun hact a
      cases htaken with
      | aside ha =>
        apply h.later hl
        rw [happly] at hsilent ⊢
        exact hsilent
      | @ends c' id outcome _ he =>
        -- the announcement starts where the turn ends if nobody is told
        rw [happly] at hsilent ⊢
        have h' : Inherits answer c'.desk := h.later he.later.desk hsilent
        change Inherits answer (announce c' id outcome).1.desk
        rw [announce_eq he.sound]
        apply nested id outcome he.sound he.size (h'.forewarn id outcome)
        intro t' ht'
        exact (h'.turns id outcome t' ht').later (forewarn_later c' id outcome).desk
      | puts hd => exact absurd (ht.no_definition c ▸ hd) nofun
      | installs hd => exact absurd (ht.no_definition c ▸ hd) nofun
    rw [fanout_cons]
    apply rest htake
    intro t' ht'
    exact (hts t' (List.mem_cons_of_mem t ht')).later hl

theorem inherits_take {t : Turn} (hs : c.desk.Sound) (h : Inherits answer c.desk)
    (ht : t.Follows answer c.desk.store) : Inherits answer (take announce c t).1.desk := by
  apply inherits_fanout hs [t] h
  intro t' ht'
  rw [List.mem_singleton.mp ht']
  exact ht

theorem inherits_announce (hs : c.desk.Sound) (h : Inherits answer c.desk) (id : Nat)
    (outcome : Option Fault) : Inherits answer (announce c id outcome).1.desk := by
  rw [announce_eq hs]
  apply inherits_fanout (forewarn_sound hs id outcome) _ (h.forewarn id outcome)
  intro t ht
  exact (h.turns id outcome t ht).later (forewarn_later c id outcome).desk

end Turns

section Steps

variable {answer : String → Delivery} {c : Coordinator} {d d' : Desk Success Failure} {id : Nat}

theorem inherits_modify {f : Load Success Failure → Load Success Failure}
    (h : Inherits answer d) (hstore : d'.store = d.store.modify id f) (hshelf : d'.shelf = d.shelf)
    (hf : ∀ l, (f l).tag = l.tag ∧ (f l).waiters = l.waiters) : Inherits answer d' := by
  have hload : ∀ j, (d'.store.load j).tag = (d.store.load j).tag ∧
      (d'.store.load j).waiters = (d.store.load j).waiters := by
    intro j
    rw [hstore]
    rcases Store.load_modify_cases d.store id f j with h | ⟨-, h⟩
    · rw [h]
      exact ⟨rfl, rfl⟩
    · rw [h]
      exact hf _
  have hlen : d'.store.loads.length = d.store.loads.length := by
    rw [hstore, Store.length_modify]
  constructor
  · apply founded_of_eq h.founded hshelf
    rw [hstore]
    rfl
  · intro j w hw
    rw [(hload j).2] at hw
    apply (h.waiter hw).mono
    · exact Nat.le_of_eq hlen.symm
    · intro i _
      exact (hload i).1

theorem inherits_answered (h : Inherits answer c.desk) : Inherits answer (c.answered id).desk :=
  inherits_modify h rfl rfl fun _ => ⟨rfl, rfl⟩

theorem inherits_fired (h : Inherits answer c.desk) : Inherits answer (c.fired id).desk :=
  inherits_modify h rfl rfl fun _ => ⟨rfl, rfl⟩

theorem inherits_queued {tag : String} {w : Waiter Success Failure} {q : Nat} (hs : d.Sound)
    (h : Inherits answer d) (hq : d.Queues tag w q d') (hw : Follows answer d.store w.onSuccess) :
    Inherits answer d' := by
  have hmono : ∀ {x}, Follows answer d.store x → Follows answer d'.store x := by
    intro x hx
    apply hx.mono hq.length_le
    intro j hj
    exact hq.tag_eq hs.store hj
  constructor
  · exact founded_of_eq h.founded hq.shelf hq.installed
  · intro j x hx
    by_cases hj : j = q
    · subst hj
      rw [hq.waiters] at hx
      rcases List.mem_append.mp hx with hx | hx
      · exact hmono (h.waiter hx)
      · rw [List.mem_singleton.mp hx]
        exact hmono hw
    · rw [hq.other j hj] at hx
      exact hmono (h.waiter hx)

theorem inherits_ensure (hs : c.desk.Sound) (h : Inherits answer c.desk) (tag : String)
    {w : Waiter Success Failure} (hw : Follows answer c.desk.store w.onSuccess) :
    Inherits answer (faultOf (c.ensure tag w)).1.desk := by
  rcases ensure_cases hs tag w with ⟨-, heq⟩ | ⟨q, d, heq, hq⟩
  · rw [heq]
    exact inherits_take hs h hw
  · rw [heq]
    exact inherits_queued hs h hq hw

theorem inherits_deliver (hs : c.desk.Sound) (h : Inherits answer c.desk)
    (hout : (c.loadOf id).fetch = .outstanding) :
    Inherits answer (c.deliver id (answer (c.loadOf id).tag)).1.desk := by
  have hp := prepares_answered hs id
  have hid := lt_of_outstanding hout
  have hid' := Nat.lt_of_lt_of_le hid hp.length
  have ha : Inherits answer (c.answered id).desk := inherits_answered h
  rw [deliver_eq hs hout]
  generalize hr : answer (c.loadOf id).tag = x
  rw [← hp.tag hid] at hr
  generalize Deed.arrival c id x = deed, concludes c id x = hdeed
  cases hdeed with
  | fault => exact inherits_take hp.sound ha trivial
  | wordless => exact ha
  | other => exact ha
  | finish => exact inherits_take hp.sound ha ⟨hid', hr, rfl⟩
  | ownBase => exact inherits_take hp.sound ha trivial
  | base => exact inherits_ensure hp.sound ha _ ⟨hid', hr⟩

theorem inherits_elapse (hs : c.desk.Sound) (h : Inherits answer c.desk) (id : Nat) :
    Inherits answer (c.elapse id).1.desk := by
  have hf : Inherits answer (c.fired id).desk := inherits_fired h
  generalize c.elapse id = s, elapses hs id = hs'
  cases hs' with
  | never => exact h
  | late => exact hf
  | ends _ he hshelves =>
    obtain ⟨hshelf, hinstalled⟩ := hshelves ""
    have hfounded := founded_of_eq hf.founded (hshelf.trans (List.append_nil _)) hinstalled
    exact inherits_announce he.sound (hf.later he.later.desk hfounded) id _

end Steps

/-- What happens to a service whose lexicons are all loaded: requests, answers and timers. -/
inductive Cue where
  | ensure (tag : String) (onSuccess : Given Callback) (onError : Option (Given Callback))
  | answer (load : Nat)
  | expire (load : Nat)

def Cue.occasion : Cue → Occasion
  | ensure .. => .call
  | answer id => .answer id
  | expire id => .timer id

def heed (source : LexiconSource) (c : Coordinator) : Cue → Step
  | .ensure tag onSuccess onError => c.act (.ensure tag onSuccess onError)
  | .answer id =>
    if (c.loadOf id).fetch = .outstanding then
      c.deliver id (source (c.loadOf id).tag c.desk.service.baseUrl)
    else (c, none)
  | .expire id => c.act (.expire id)

def follow (source : LexiconSource) (c : Coordinator) (cues : List Cue) : Coordinator :=
  cues.foldl (fun c cue => (c.heed source cue).1) c

theorem move_heed {c : Coordinator} (hs : c.desk.Sound) (source : LexiconSource) (cue : Cue) :
    ∃ N, Move N cue.occasion c (c.heed source cue) ∧ ∀ k, N k → ¬ k.Issued c.client := by
  cases cue with
  | ensure tag onSuccess onError => exact move_act hs (.ensure tag onSuccess onError)
  | answer id => exact move_delivery hs id _
  | expire id => exact move_act hs (.expire id)

def follower (source : LexiconSource) : Driver Coordinator Cue where
  view := id
  act c cue := c.heed source cue
  occasion := Cue.occasion
  moves _ cue hs := move_heed hs.desk source cue

section Runs

variable {source : LexiconSource} {c : Coordinator} {url : String}

theorem inherits_heed (hs : c.desk.Sound) (hurl : c.desk.service.baseUrl = url)
    (h : Inherits (source · url) c.desk) (cue : Cue) :
    Inherits (source · url) (c.heed source cue).1.desk := by
  cases cue with
  | ensure tag onSuccess onError =>
    simp only [heed, act]
    split
    · exact h
    · exact inherits_ensure (c := c.numbered) hs h tag trivial
  | answer id =>
    simp only [heed]
    split
    · rename_i hout
      rw [hurl]
      exact inherits_deliver hs h hout
    · exact h
  | expire id => exact inherits_elapse hs h id

theorem inherits_follow (hs : c.Sound) (hurl : c.desk.service.baseUrl = url)
    (h : Inherits (source · url) c.desk) (cues : List Cue) :
    Inherits (source · url) (follow source c cues).desk := by
  induction cues generalizing c with
  | nil => exact h
  | cons cue cues ih =>
    have hstep : (c.heed source cue).1.Sound := Driver.sound_step (d := follower source) hs cue
    have hservice : (c.heed source cue).1.desk.service = c.desk.service :=
      Driver.service_step (d := follower source) hs cue
    apply ih hstep
    · rw [hservice]
      exact hurl
    · exact inherits_heed hs.desk hurl h cue

theorem inherits_start (answer : String → Delivery) (service : Service) (client : Client) :
    Inherits answer (start service client).desk where
  founded := nofun
  waiter hw := absurd hw List.not_mem_nil

end Runs

def Names (answer : String → Delivery) (t b : String) : Prop :=
  ∃ data, answer t = .resource ⟨data, some b⟩

section Chains

variable {answer : String → Delivery} {d : Desk Success Failure} {t u : String} {place : Nat}

open Relation

theorem base_below (h : Founded answer d) (hp : d.store.get? t = some place)
    (hn : Names answer t u) : ∃ q, q < place ∧ d.store.get? u = some q := by
  obtain ⟨base, entries, under, ⟨data, ha, -⟩, hunder, -⟩ := h t place hp
  obtain ⟨data', ha'⟩ := hn
  rw [ha] at ha'
  cases ha'
  cases hunder with
  | on hq hb _ => exact ⟨_, hq, hb⟩

theorem chain_below (h : Founded answer d) (hp : d.store.get? t = some place)
    (hn : TransGen (Names answer) t u) : ∃ q, q < place ∧ d.store.get? u = some q := by
  induction hn with
  | single hn => exact base_below h hp hn
  | tail _ hn ih =>
    obtain ⟨q, hq, hu⟩ := ih
    obtain ⟨r, hr, hv⟩ := base_below h hu hn
    exact ⟨r, Nat.lt_trans hr hq, hv⟩

theorem chain_installed (h : Founded answer d) (hp : d.store.get? t = some place)
    (hn : ReflTransGen (Names answer) t u) : ∃ q, d.store.get? u = some q := by
  rcases reflTransGen_iff_eq_or_transGen.mp hn with rfl | hn
  · exact ⟨place, hp⟩
  · obtain ⟨q, -, hq⟩ := chain_below h hp hn
    exact ⟨q, hq⟩

theorem no_cycle (h : Founded answer d) (hp : d.store.get? t = some place) :
    ¬ TransGen (Names answer) t t := by
  intro hn
  obtain ⟨q, hq, hp'⟩ := chain_below h hp hn
  rw [hp] at hp'
  have heq := Option.some.inj hp'
  omega

end Chains

open Relation in
/-- In every state of a service that only loads, and whose loader answers each tag always in the
same way, what is installed under a tag is what the resource of the tag describes: its data, over
the lexicon that is installed for its base. So nothing is installed under a tag whose chain of
bases enters a cycle, or comes to a resource that is missing or malformed. -/
theorem loaded_as_described (source : LexiconSource) (service : Service) (client : Client)
    (cues : List Cue) :
    let c := follow source (start service client) cues
    let answer := fun t => source t service.baseUrl
    (∀ t, c.desk.store.contains t → ∃ base entries l,
      Describes answer t base entries ∧ c.desk.lexicon? t = some l ∧ l.tag = t ∧
        (base = none → l.source = entries) ∧
        ∀ b ∈ base, ∃ lb, c.desk.lexicon? b = some lb ∧
          LexiconData.Overlays l.source lb.source entries) ∧
    ∀ t u, ReflTransGen (Names answer) t u →
      (TransGen (Names answer) u u ∨ ∀ base entries, ¬ Describes answer u base entries) →
        ¬ c.desk.store.contains t := by
  intro c answer
  have hs := sound_start service client
  have hfounded : Founded answer c.desk :=
    (inherits_follow hs rfl (inherits_start answer service client) cues).founded
  constructor
  · intro t ht
    obtain ⟨place, hp⟩ := Option.isSome_iff_exists.mp ht
    obtain ⟨base, entries, under, hdesc, hunder, hplace⟩ := hfounded t place hp
    have hp : c.desk.store.get? t = some place := hp
    have htag := tag_overlaid t under entries
    refine ⟨base, entries, overlaid t under entries, hdesc, ?_, htag, ?_, ?_⟩
    · rw [Desk.lexicon?, hp]
      exact hplace
    · rintro rfl
      cases hunder
      exact Lexicon.source_ofData t entries
    · rintro b rfl
      cases hunder with
      | @on _ lb q _ hb hl =>
        refine ⟨lb, ?_, Lexicon.derive_overlays lb t entries⟩
        rw [Desk.lexicon?, hb]
        exact hl
  · intro t u hn hbad ht
    obtain ⟨place, hp⟩ := Option.isSome_iff_exists.mp ht
    obtain ⟨q, hq⟩ := chain_installed hfounded hp hn
    rcases hbad with hcycle | hmissing
    · exact no_cycle hfounded hq hcycle
    · obtain ⟨base, entries, under, hdesc, -⟩ := hfounded u q hq
      exact hmissing base entries hdesc

open Relation in
/-- One tag has a base and another is its own base's base. -/
theorem loaded_as_described_based :
    let data : Value := .map [(.text "*", .map [(.text "k", .text "v")])]
    let source : LexiconSource := fun t _ =>
      if t = "t" then .resource ⟨data, some "b"⟩
      else if t = "b" then .resource ⟨data, none⟩
      else if t = "x" then .resource ⟨data, some "y"⟩
      else .resource ⟨data, some "x"⟩
    let service : Service := ⟨true, ⟨.whole 5, rfl⟩, ""⟩
    let client : Client := ⟨[], [], [], 0, .broken, "*"⟩
    let request (t : String) : Cue := .ensure t (.function ⟨"ok", none⟩) none
    let cues := [request "t", request "x", .answer 0, .answer 1, .answer 2, .answer 3]
    ∃ c, c = follow source (start service client) cues ∧ c.desk.store.contains "t" ∧
      (∃ l lb entries, c.desk.lexicon? "t" = some l ∧ c.desk.lexicon? "b" = some lb ∧
        LexiconData.Overlays l.source lb.source entries) ∧
      ¬ c.desk.store.contains "x" := by
  intro data source service client request cues
  have ht : (follow source (start service client) cues).desk.store.contains "t" := by
    decide +kernel
  obtain ⟨hinstalled, hchains⟩ := loaded_as_described source service client cues
  obtain ⟨base, entries, l, hdesc, hl, -, -, hbase⟩ := hinstalled "t" ht
  have hb : base = some "b" := by
    obtain ⟨data', ha, -⟩ := hdesc
    have hgiven : (fun t => source t service.baseUrl) "t" = .resource ⟨data, some "b"⟩ := rfl
    rw [hgiven] at ha
    cases ha
    rfl
  obtain ⟨lb, hlb, hover⟩ := hbase "b" hb
  have hxy : Names (fun t => source t service.baseUrl) "x" "y" := ⟨data, rfl⟩
  have hyx : Names (fun t => source t service.baseUrl) "y" "x" := ⟨data, rfl⟩
  have hx := hchains "x" "x" .refl (Or.inl (.tail (.single hxy) hyx))
  exact ⟨_, rfl, ht, ⟨l, lb, entries, hl, hlb, hover⟩, hx⟩

end Coordinator

end Phrasebook
