import Phrasebook.Proofs.Loading.Inheritance

/-!
# What loading a tag comes to

If a loader answers each tag always in the same way, what loading a tag comes to depends on the tag
alone: a lexicon, a failure, or neither. It is neither if the chain of bases enters a cycle, comes
to data that cannot be read and of which no message can tell, or comes to a tag for which the loader
raises a fault that has no text.
-/

namespace Phrasebook

namespace Coordinator

open Relation

/-- What a loader gives for each tag: a resource, or what it raises. -/
abbrev Answers := String → Except Fault Resource

/-- The lexicon that loading a tag comes to. -/
inductive Loads (answer : Answers) : String → Lexicon → Prop where
  | plain {t data entries} (ha : answer t = .ok ⟨data, none⟩)
      (hd : LexiconData.ofValue data = .ok entries) : Loads answer t (.ofData t entries)
  | based {t b data l entries} (ha : answer t = .ok ⟨data, some b⟩) (hb : b ≠ t)
      (hl : Loads answer b l) (hd : LexiconData.ofValue data = .ok entries) :
      Loads answer t (l.derive t entries)

/-- The data for a tag are put over the lexicon of its base, if it has one. -/
inductive Rests (answer : Answers) (t : String) (data : Value) : Option Lexicon → Prop where
  | plain (ha : answer t = .ok ⟨data, none⟩) : Rests answer t data none
  | based {b l} (ha : answer t = .ok ⟨data, some b⟩) (hb : b ≠ t) (hl : Loads answer b l) :
      Rests answer t data (some l)

/-- The fault that loading a tag comes to, with its causes. -/
inductive Fails (answer : Answers) : String → Fault → Prop where
  | raised {t f reason} (ha : answer t = .error f) (hf : f.text = .ok reason) :
      Fails answer t (.load t (.failed reason) (some f))
  | own {t data} (ha : answer t = .ok ⟨data, some t⟩) :
      Fails answer t (.load t .ownBase (some (.ownBaseResource t)))
  | malformed {t data under f} (hr : Rests answer t data under)
      (hd : LexiconData.ofValue data = .error f) (hf : f.isShape) :
      Fails answer t (.load t (.failed f.message) (some (.data f)))
  | base {t b data f} (ha : answer t = .ok ⟨data, some b⟩) (hb : b ≠ t) (h : Fails answer b f) :
      Fails answer t (.load t (.baseFailed b) (some f))

def Links (answer : Answers) (t b : String) : Prop :=
  b ≠ t ∧ ∃ data, answer t = .ok ⟨data, some b⟩

/-- The data for a tag hold an integer for a key that is too long to be written. -/
def Garbled (answer : Answers) (t : String) : Prop :=
  ∃ data under, Rests answer t data under ∧ LexiconData.ofValue data = .error .longNumber

def Mute (answer : Answers) (t : String) : Prop :=
  ∃ f g, answer t = .error f ∧ f.text = .error g

/-- The chain of bases of a tag enters a cycle, or comes to a tag whose data are garbled or whose
fault has no text. The cycle has two tags at least, as no tag links to itself. -/
def Lasts (answer : Answers) (t : String) : Prop :=
  ∃ u, ReflTransGen (Links answer) t u ∧
    (TransGen (Links answer) u u ∨ Garbled answer u ∨ Mute answer u)

/-- What becomes of a request for a tag when every errand is over. -/
inductive Upshot where
  | loaded
  | failed (f : Fault)
  | waiting

inductive Comes (answer : Answers) (t : String) : Upshot → Prop where
  | loaded {l} (h : Loads answer t l) : Comes answer t .loaded
  | failed {f} (h : Fails answer t f) : Comes answer t (.failed f)
  | waiting (h : Lasts answer t) : Comes answer t .waiting

section Unique

variable {answer : Answers} {t b b' : String} {data data' : Value} {under under' : Option Lexicon}
  {l l' : Lexicon} {f f' : Fault}

theorem Links.unique (h : Links answer t b) (h' : Links answer t b') : b = b' := by
  obtain ⟨-, data, ha⟩ := h
  obtain ⟨-, data', ha'⟩ := h'
  cases ha.symm.trans ha'
  rfl

theorem Loads.rests (h : Loads answer t l) : ∃ data under entries,
    Rests answer t data under ∧ LexiconData.ofValue data = .ok entries := by
  cases h with
  | plain ha hd => exact ⟨_, _, _, .plain ha, hd⟩
  | based ha hb hl hd => exact ⟨_, _, _, .based ha hb hl, hd⟩

theorem Rests.loads (h : Rests answer t data under) {entries : LexiconData}
    (hd : LexiconData.ofValue data = .ok entries) : Loads answer t (overlaid t under entries) := by
  cases h with
  | plain ha => exact .plain ha hd
  | based ha hb hl => exact .based ha hb hl hd

theorem Rests.given (h : Rests answer t data under) :
    ∃ base, answer t = .ok ⟨data, base⟩ ∧ base ≠ some t := by
  cases h with
  | plain ha => exact ⟨none, ha, nofun⟩
  | based ha hb _ => exact ⟨_, ha, fun he => hb (Option.some.inj he)⟩

theorem Rests.data_eq (h : Rests answer t data under) (h' : Rests answer t data' under') :
    data = data' := by
  obtain ⟨base, ha, -⟩ := h.given
  obtain ⟨base', ha', -⟩ := h'.given
  cases ha.symm.trans ha'
  rfl

theorem Rests.base (h : Rests answer t data under) (hl : Links answer t b) :
    ∃ l, Loads answer b l := by
  cases h with
  | plain ha =>
    obtain ⟨-, data', ha'⟩ := hl
    cases ha.symm.trans ha'
  | based ha hb hloads =>
    obtain rfl := hl.unique ⟨hb, _, ha⟩
    exact ⟨_, hloads⟩

theorem Loads.unique (h : Loads answer t l) (h' : Loads answer t l') : l = l' := by
  induction h generalizing l' with
  | plain ha hd =>
    cases h' with
    | plain ha' hd' =>
      cases ha.symm.trans ha'
      cases hd.symm.trans hd'
      rfl
    | based ha' => cases ha.symm.trans ha'
  | based ha _ _ hd ih =>
    cases h' with
    | plain ha' => cases ha.symm.trans ha'
    | based ha' _ hl' hd' =>
      cases ha.symm.trans ha'
      cases hd.symm.trans hd'
      rw [ih hl']

theorem Fails.not_loads (h : Fails answer t f) : ¬ Loads answer t l := by
  intro hl
  obtain ⟨data, under, entries, hr, hd⟩ := hl.rests
  obtain ⟨base, ha, hown⟩ := hr.given
  induction h generalizing l data under entries base with
  | raised ha' => cases ha.symm.trans ha'
  | own ha' =>
    cases ha.symm.trans ha'
    exact hown rfl
  | malformed hr' hd' _ =>
    obtain rfl := hr.data_eq hr'
    cases hd.symm.trans hd'
  | base ha' hb _ ih =>
    obtain ⟨l', hl'⟩ := hr.base ⟨hb, _, ha'⟩
    obtain ⟨_, _, _, hr', hd'⟩ := hl'.rests
    obtain ⟨_, ha', hown'⟩ := hr'.given
    exact ih hl' _ _ _ hr' hd' _ ha' hown'

theorem garbled_of_key {domain : String} {n : Int} {pattern : Value}
    (ha : answer t = .ok ⟨.map [(.text domain, .map [(.int n, pattern)])], none⟩)
    (hn : Value.intText n = none) : Garbled answer t := by
  refine ⟨_, none, .plain ha, ?_⟩
  have hentry : LexiconData.ofEntry domain (.int n, pattern) = .error .longNumber := by
    rw [LexiconData.ofEntry, Value.quoted, hn]
    nofun
  have hdomain : LexiconData.ofDomain (.text domain, .map [(.int n, pattern)]) =
      .error .longNumber := by
    rw [LexiconData.ofDomain, List.mapM_cons, hentry]
    rfl
  rw [LexiconData.ofValue, List.mapM_cons, hdomain]
  rfl

theorem Garbled.not_loads (h : Garbled answer t) : ¬ Loads answer t l := by
  intro hl
  obtain ⟨data, under, hr, hd⟩ := h
  obtain ⟨data', under', entries, hr', hd'⟩ := hl.rests
  obtain rfl := hr.data_eq hr'
  cases hd.symm.trans hd'

theorem Garbled.not_fails (h : Garbled answer t) : ¬ Fails answer t f := by
  intro hf
  obtain ⟨data, under, hr, hd⟩ := h
  obtain ⟨base, ha, hown⟩ := hr.given
  cases hf with
  | raised ha' => cases ha.symm.trans ha'
  | own ha' =>
    cases ha.symm.trans ha'
    exact hown rfl
  | malformed hr' hd' hshape =>
    obtain rfl := hr.data_eq hr'
    cases hd.symm.trans hd'
    contradiction
  | base ha' hb hf' =>
    obtain ⟨l, hl⟩ := hr.base ⟨hb, _, ha'⟩
    exact hf'.not_loads hl

/-- A tag fails in one way only, down to the last cause. -/
theorem Fails.unique (h : Fails answer t f) (h' : Fails answer t f') : f = f' := by
  induction h generalizing f' with
  | raised ha hf =>
    cases h' with
    | raised ha' hf' =>
      cases ha.symm.trans ha'
      cases hf.symm.trans hf'
      rfl
    | own ha' => cases ha.symm.trans ha'
    | malformed hr' =>
      obtain ⟨_, ha', -⟩ := hr'.given
      cases ha.symm.trans ha'
    | base ha' => cases ha.symm.trans ha'
  | own ha =>
    cases h' with
    | raised ha' => cases ha.symm.trans ha'
    | own => rfl
    | malformed hr' =>
      obtain ⟨_, ha', hown⟩ := hr'.given
      cases ha.symm.trans ha'
      exact absurd rfl hown
    | base ha' hb =>
      cases ha.symm.trans ha'
      exact absurd rfl hb
  | malformed hr hd _ =>
    obtain ⟨_, ha, hown⟩ := hr.given
    cases h' with
    | raised ha' => cases ha.symm.trans ha'
    | own ha' =>
      cases ha.symm.trans ha'
      exact absurd rfl hown
    | malformed hr' hd' _ =>
      obtain rfl := hr.data_eq hr'
      cases hd.symm.trans hd'
      rfl
    | base ha' hb hf' =>
      obtain ⟨l, hl⟩ := hr.base ⟨hb, _, ha'⟩
      exact absurd hl hf'.not_loads
  | base ha hb hf ih =>
    cases h' with
    | raised ha' => cases ha.symm.trans ha'
    | own ha' =>
      cases ha.symm.trans ha'
      exact absurd rfl hb
    | malformed hr' =>
      obtain ⟨l, hl⟩ := hr'.base ⟨hb, _, ha⟩
      exact absurd hl hf.not_loads
    | base ha' _ hf' =>
      cases ha.symm.trans ha'
      rw [ih hf']

end Unique

def Closes (answer : Answers) (t : String) : Prop :=
  (∃ l, Loads answer t l) ∨ ∃ f, Fails answer t f

section Closes

variable {answer : Answers} {t b u : String} {v v' : Upshot}

theorem Closes.base (h : Closes answer t) (hl : Links answer t b) : Closes answer b := by
  rcases h with ⟨l, h⟩ | ⟨f, h⟩
  · obtain ⟨data, under, entries, hr, -⟩ := h.rests
    exact Or.inl (hr.base hl)
  · cases h with
    | raised ha =>
      obtain ⟨-, data, ha'⟩ := hl
      cases ha.symm.trans ha'
    | own ha =>
      obtain ⟨hb, data, ha'⟩ := hl
      cases ha.symm.trans ha'
      exact absurd rfl hb
    | malformed hr => exact Or.inl (hr.base hl)
    | base ha hb hf =>
      obtain rfl := hl.unique ⟨hb, _, ha⟩
      exact Or.inr ⟨_, hf⟩

theorem Closes.not_garbled (h : Closes answer t) : ¬ Garbled answer t := by
  intro hg
  rcases h with ⟨l, h⟩ | ⟨f, h⟩
  · exact hg.not_loads h
  · exact hg.not_fails h

theorem Closes.not_mute (h : Closes answer t) : ¬ Mute answer t := by
  rintro ⟨f, g, ha, hf⟩
  rcases h with ⟨l, h⟩ | ⟨e, h⟩
  · obtain ⟨data, under, entries, hr, -⟩ := h.rests
    obtain ⟨base, ha', -⟩ := hr.given
    cases ha.symm.trans ha'
  · cases h with
    | raised ha' hf' =>
      cases ha.symm.trans ha'
      cases hf.symm.trans hf'
    | own ha' => cases ha.symm.trans ha'
    | malformed hr =>
      obtain ⟨base, ha', -⟩ := hr.given
      cases ha.symm.trans ha'
    | base ha' => cases ha.symm.trans ha'

theorem Loads.acc {l : Lexicon} (h : Loads answer t l) : Acc (Function.swap (Links answer)) t := by
  induction h with
  | plain ha _ =>
    refine .intro _ fun b hl => ?_
    obtain ⟨-, data, ha'⟩ := hl
    cases ha.symm.trans ha'
  | based ha hb _ _ ih =>
    refine .intro _ fun b hl => ?_
    obtain rfl := Links.unique hl ⟨hb, _, ha⟩
    exact ih

theorem Fails.acc {f : Fault} (h : Fails answer t f) : Acc (Function.swap (Links answer)) t := by
  induction h with
  | raised ha =>
    refine .intro _ fun b hl => ?_
    obtain ⟨-, data, ha'⟩ := hl
    cases ha.symm.trans ha'
  | own ha =>
    refine .intro _ fun b hl => ?_
    obtain ⟨hb, data, ha'⟩ := hl
    cases ha.symm.trans ha'
    exact absurd rfl hb
  | malformed hr =>
    refine .intro _ fun b hl => ?_
    obtain ⟨l, hloads⟩ := hr.base hl
    exact hloads.acc
  | base ha hb _ ih =>
    refine .intro _ fun b hl => ?_
    obtain rfl := Links.unique hl ⟨hb, _, ha⟩
    exact ih

theorem Closes.acc (h : Closes answer t) : Acc (Function.swap (Links answer)) t := by
  rcases h with ⟨l, h⟩ | ⟨f, h⟩
  · exact h.acc
  · exact h.acc

theorem Closes.chain (h : Closes answer t) (hl : ReflTransGen (Links answer) t u) :
    Closes answer u := by
  induction hl with
  | refl => exact h
  | tail _ hl ih => exact ih.base hl

theorem Closes.not_lasts (h : Closes answer t) : ¬ Lasts answer t := by
  rintro ⟨u, hu, hcycle | hg | hm⟩
  · -- no tag is below itself where the chains are finite
    have hacc := (h.chain hu).acc.transGen
    have hswap := transGen_swap.mpr hcycle
    induction hacc with
    | intro u _ ih => exact ih u hswap (.trans hu .refl) hcycle hswap
  · exact (h.chain hu).not_garbled hg
  · exact (h.chain hu).not_mute hm

theorem Comes.unique (h : Comes answer t v) (h' : Comes answer t v') : v = v' := by
  cases h with
  | loaded h =>
    cases h' with
    | loaded => rfl
    | failed hf => exact absurd h hf.not_loads
    | waiting hl => exact absurd hl (Closes.not_lasts (Or.inl ⟨_, h⟩))
  | failed h =>
    cases h' with
    | loaded hl => exact absurd hl h.not_loads
    | failed hf => rw [h.unique hf]
    | waiting hl => exact absurd hl (Closes.not_lasts (Or.inr ⟨_, h⟩))
  | waiting h =>
    cases h' with
    | loaded hl => exact absurd h (Closes.not_lasts (Or.inl ⟨_, hl⟩))
    | failed hf => exact absurd h (Closes.not_lasts (Or.inr ⟨_, hf⟩))
    | waiting => rfl

theorem Comes.waiting_iff (h : Comes answer t v) : v = .waiting ↔ Lasts answer t := by
  cases h with
  | loaded h => exact ⟨nofun, fun hl => absurd hl (Closes.not_lasts (Or.inl ⟨_, h⟩))⟩
  | failed h => exact ⟨nofun, fun hl => absurd hl (Closes.not_lasts (Or.inr ⟨_, h⟩))⟩
  | waiting h => exact ⟨fun _ => h, fun _ => rfl⟩

end Closes

section Founded

variable {answer : Answers} {d : Desk Success Failure} {t : String} {place : Nat}

/-- What is installed under a tag is what loading the tag comes to. -/
theorem loads_of_founded (h : Founded (fun t => delivery (answer t)) d)
    (hp : d.store.get? t = some place) : ∃ l, d.shelf[place]? = some l ∧ Loads answer t l := by
  induction place using Nat.strongRecOn generalizing t with
  | _ place ih =>
    obtain ⟨base, entries, under, ⟨data, hdel, hd⟩, hunder, hplace⟩ := h t place hp
    have ha := delivery_eq_resource.mp hdel
    have hrests : Rests answer t data under := by
      cases hunder with
      | bottom => exact .plain ha
      | @on b l q hq hb hl =>
        obtain ⟨l', hl', hloads⟩ := ih q hq hb
        obtain rfl := Option.some.inj (hl.symm.trans hl')
        refine .based ha ?_ hloads
        rintro rfl
        have heq := Option.some.inj (hb.symm.trans hp)
        omega
    exact ⟨_, hplace, hrests.loads hd⟩

theorem loads_of_contains (h : Founded (fun t => delivery (answer t)) d)
    (ht : d.store.contains t) : ∃ l, d.lexicon? t = some l ∧ Loads answer t l := by
  obtain ⟨place, hp⟩ := Option.isSome_iff_exists.mp ht
  obtain ⟨l, hl, hloads⟩ := loads_of_founded h hp
  exact ⟨l, Option.bind_eq_some_iff.mpr ⟨place, hp, hl⟩, hloads⟩

end Founded

end Coordinator

end Phrasebook
