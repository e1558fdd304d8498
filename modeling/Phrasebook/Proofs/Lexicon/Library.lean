import Phrasebook.Proofs.Lexicon.Queries

/-!
# Lexicons in use

Any number of lexicons are made, derived from one another, asked for formatters and looked up, with
any registries, and extensions are registered meanwhile. All is answered from the data as they were
written, but for the formatters: that of an entry is the first one that was compiled for it, and it
is compiled from the pattern as it was written, with the registry as it was then.
-/

namespace Phrasebook

/-- Lexicons and registries, both known by their places. -/
structure Library where
  lexicons : List Lexicon
  registries : List (Registry Extension)

namespace Library

inductive Call where
  | make (tag : String) (data : Value)
  | derive (place : Nat) (tag : String) (data : Value)
  | register (registry : Nat) (name : Value) (extension : Given Extension)
  | copy (registry : Nat)
  | formatter (place registry : Nat) (domain key : String)
  | ask (place : Nat) (q : Query)

inductive Answer where
  | made
  | registered
  | found (f : Option Formatter)
  | reply (r : Reply)
  | raised (f : Fault)
  /-- There is no lexicon or registry in that place. -/
  | unknown

def Answer.ofFormatter : Except Fault (Option Formatter) → Answer
  | .ok f => .found f
  | .error fault => .raised fault

def perform (b : Library) : Call → Answer × Library
  | .make tag data =>
    match LexiconData.ofValue data with
    | .ok data => (.made, { b with lexicons := b.lexicons ++ [.ofData tag data] })
    | .error f => (.raised (.data f), b)
  | .derive place tag data =>
    match b.lexicons[place]?, LexiconData.ofValue data with
    | none, _ => (.unknown, b)
    | some l, .ok data => (.made, { b with lexicons := b.lexicons ++ [l.derive tag data] })
    | some _, .error f => (.raised (.data f), b)
  | .register registry name extension =>
    match b.registries[registry]? with
    | none => (.unknown, b)
    | some r =>
      match r.register name extension with
      | .ok r => (.registered, { b with registries := b.registries.set registry r })
      | .error f => (.raised f, b)
  | .copy registry =>
    match b.registries[registry]? with
    | none => (.unknown, b)
    | some r => (.registered, { b with registries := b.registries ++ [r] })
  | .formatter place registry domain key =>
    match b.lexicons[place]?, b.registries[registry]? with
    | some l, some r =>
      (.ofFormatter (l.formatter r domain key).1,
        { b with lexicons := b.lexicons.set place (l.formatter r domain key).2 })
    | _, _ => (.unknown, b)
  | .ask place q =>
    match b.lexicons[place]? with
    | some l => (.reply (l.reply q), b)
    | none => (.unknown, b)

def run (b : Library) (calls : List Call) : Library :=
  calls.foldl (fun b c => (b.perform c).2) b

end Library

/-- What the lexicons of a library were made of, and what is registered: a library in which nothing
is ever compiled. -/
structure Holdings where
  contents : List (String × LexiconData)
  registries : List (Registry Extension)

namespace Holdings

open Library

def after (h : Holdings) : Call → Holdings
  | .make tag data =>
    match LexiconData.ofValue data with
    | .ok data => { h with contents := h.contents ++ [(tag, data)] }
    | .error _ => h
  | .derive place tag data =>
    match h.contents[place]?, LexiconData.ofValue data with
    | some (_, base), .ok data => { h with contents := h.contents ++ [(tag, base.merge data)] }
    | _, _ => h
  | .register registry name extension =>
    match h.registries[registry]? with
    | none => h
    | some r =>
      match r.register name extension with
      | .ok r => { h with registries := h.registries.set registry r }
      | .error _ => h
  | .copy registry =>
    match h.registries[registry]? with
    | none => h
    | some r => { h with registries := h.registries ++ [r] }
  | .formatter .. | .ask .. => h

def run (h : Holdings) (calls : List Call) : Holdings := calls.foldl after h

def pattern? (h : Holdings) (place : Nat) (domain key : String) : Option String :=
  h.contents[place]?.bind fun row => row.2.pattern? domain key

/-- The formatter that a call compiles for an entry, if nothing is compiled for it yet. -/
def compiled? (h : Holdings) (place : Nat) (domain key : String) : Call → Option Formatter
  | .formatter p registry d k =>
    if p = place ∧ d = domain ∧ k = key then do
      let pattern ← h.pattern? place domain key
      let r ← h.registries[registry]?
      (Formatter.ofPattern r pattern).toOption
    else none
  | _ => none

def keep (h : Holdings) (kept : Nat → String → String → Option Formatter) (c : Call) :
    Nat → String → String → Option Formatter :=
  fun place domain key => (kept place domain key).or (h.compiled? place domain key c)

def first? (h : Holdings) (place : Nat) (domain key : String) : List Call → Option Formatter
  | [] => none
  | c :: calls =>
    (h.compiled? place domain key c).or ((h.after c).first? place domain key calls)

def answer (h : Holdings) (kept : Nat → String → String → Option Formatter) : Call → Answer
  | .make _ data =>
    match LexiconData.ofValue data with
    | .ok _ => .made
    | .error f => .raised (.data f)
  | .derive place _ data =>
    match h.contents[place]?, LexiconData.ofValue data with
    | none, _ => .unknown
    | some _, .ok _ => .made
    | some _, .error f => .raised (.data f)
  | .register registry name extension =>
    match h.registries[registry]? with
    | none => .unknown
    | some r =>
      match r.register name extension with
      | .ok _ => .registered
      | .error f => .raised f
  | .copy registry =>
    match h.registries[registry]? with
    | none => .unknown
    | some _ => .registered
  | .formatter place registry domain key =>
    match h.contents[place]?, h.registries[registry]? with
    | some (_, data), some r => .ofFormatter (data.formatter (kept place) r domain key)
    | _, _ => .unknown
  | .ask place q =>
    match h.contents[place]? with
    | some (_, data) => .reply (data.reply (kept place) q)
    | none => .unknown

variable {h : Holdings} {kept : Nat → String → String → Option Formatter} {place registry : Nat}
  {domain key : String} {f : Formatter}

theorem answer_found (hf : h.answer kept (.formatter place registry domain key) = .found (some f)) :
    ∃ pattern r, h.pattern? place domain key = some pattern ∧ h.registries[registry]? = some r ∧
      (kept place domain key = some f ∨
        kept place domain key = none ∧ Formatter.ofPattern r pattern = .ok f) := by
  simp only [answer] at hf
  cases hc : h.contents[place]? with
  | none => simp [hc] at hf
  | some row =>
    cases hr : h.registries[registry]? with
    | none => simp [hc, hr] at hf
    | some r =>
      simp only [hc, hr, LexiconData.formatter] at hf
      cases hp : row.2.pattern? domain key with
      | none => simp [hp, Answer.ofFormatter] at hf
      | some pattern =>
        refine ⟨pattern, r, by simp [pattern?, hc, hp], rfl, ?_⟩
        cases hkept : kept place domain key with
        | some g => exact .inl (by simpa [hp, hkept, Answer.ofFormatter] using hf)
        | none =>
          refine .inr ⟨rfl, ?_⟩
          simp only [hp, hkept] at hf
          cases hx : Formatter.ofPattern r pattern with
          | error fault => simp [hx, Answer.ofFormatter, Except.map] at hf
          | ok g => simpa [hx, Answer.ofFormatter, Except.map] using hf

theorem keep_found (hf : h.answer kept (.formatter place registry domain key) = .found (some f)) :
    h.keep kept (.formatter place registry domain key) place domain key = some f := by
  obtain ⟨pattern, r, hp, hr, hkept | ⟨hnone, hcompile⟩⟩ := answer_found hf
  · rw [keep, hkept, Option.some_or]
  · simp [keep, hnone, compiled?, hp, hr, hcompile, Except.toOption]

end Holdings

namespace Library

/-- A library holds what was written and registered, and the formatters that are kept. -/
structure Keeps (b : Library) (h : Holdings)
    (kept : Nat → String → String → Option Formatter) : Prop where
  registries : b.registries = h.registries
  size : b.lexicons.length = h.contents.length
  holds : ∀ (place : Nat) l, b.lexicons[place]? = some l →
    ∃ data, h.contents[place]? = some (l.tag, data) ∧ l.Holds data (kept place)
  fresh : ∀ place, b.lexicons.length ≤ place → ∀ domain key, kept place domain key = none

section Keeps

variable {b : Library} {h : Holdings} {kept kept' : Nat → String → String → Option Formatter}
  {place : Nat}

theorem Keeps.cases (hk : Keeps b h kept) (place : Nat) :
    (b.lexicons[place]? = none ∧ h.contents[place]? = none) ∨
    ∃ l data, b.lexicons[place]? = some l ∧ h.contents[place]? = some (l.tag, data) ∧
      l.Holds data (kept place) := by
  cases hl : b.lexicons[place]? with
  | none =>
    refine Or.inl ⟨rfl, ?_⟩
    rw [List.getElem?_eq_none_iff] at hl ⊢
    rwa [← hk.size]
  | some l =>
    obtain ⟨data, hdata, hholds⟩ := hk.holds place l hl
    exact Or.inr ⟨l, data, rfl, hdata, hholds⟩

theorem Keeps.add (hk : Keeps b h kept) (tag : String) (data : LexiconData) :
    Keeps { b with lexicons := b.lexicons ++ [.ofData tag data] }
      { h with contents := h.contents ++ [(tag, data)] } kept := by
  have hnew : kept b.lexicons.length = fun _ _ => none := by
    funext domain key
    exact hk.fresh _ (Nat.le_refl _) domain key
  refine ⟨hk.registries, by simp [hk.size], fun place l hl => ?_, fun place hplace => ?_⟩
  · by_cases hlt : place < b.lexicons.length
    · rw [List.getElem?_append_left hlt] at hl
      rw [List.getElem?_append_left (hk.size ▸ hlt)]
      exact hk.holds place l hl
    · have hlast : place = b.lexicons.length := by
        have := (List.getElem?_eq_some_iff.1 hl).1
        simp only [List.length_append, List.length_singleton] at this
        omega
      subst hlast
      rw [List.getElem?_concat_length, Option.some.injEq] at hl
      subst hl
      refine ⟨data, ?_, hnew ▸ Lexicon.holds_ofData tag data⟩
      rw [hk.size, List.getElem?_concat_length]
      rfl
  · rw [List.length_append] at hplace
    exact hk.fresh place (Nat.le_trans (Nat.le_add_right _ _) hplace)

theorem Keeps.answer (hk : Keeps b h kept) (c : Call) : (b.perform c).1 = h.answer kept c := by
  cases c with
  | make tag data =>
    simp only [perform, Holdings.answer]
    cases LexiconData.ofValue data <;> rfl
  | derive place tag data =>
    simp only [perform, Holdings.answer]
    rcases hk.cases place with ⟨hl, hc⟩ | ⟨l, base, hl, hc, -⟩
    · rw [hl, hc]
    · rw [hl, hc]
      cases LexiconData.ofValue data <;> rfl
  | register registry name extension =>
    simp only [perform, Holdings.answer, hk.registries]
    cases h.registries[registry]? with
    | none => rfl
    | some r =>
      simp only
      cases r.register name extension <;> rfl
  | copy registry =>
    simp only [perform, Holdings.answer, hk.registries]
    cases h.registries[registry]? <;> rfl
  | formatter place registry domain key =>
    simp only [perform, Holdings.answer, hk.registries]
    rcases hk.cases place with ⟨hl, hc⟩ | ⟨l, data, hl, hc, hholds⟩
    · rw [hl, hc]
    · rw [hl, hc]
      cases h.registries[registry]? with
      | none => rfl
      | some r => exact congrArg Answer.ofFormatter (hholds.formatter r domain key)
  | ask place q =>
    simp only [perform, Holdings.answer]
    rcases hk.cases place with ⟨hl, hc⟩ | ⟨l, data, hl, hc, hholds⟩
    · rw [hl, hc]
    · rw [hl, hc]
      exact congrArg Answer.reply (hholds.reply q)

theorem Keeps.set (hk : Keeps b h kept) {l m : Lexicon} {data : LexiconData}
    (hl : b.lexicons[place]? = some l) (hc : h.contents[place]? = some (l.tag, data))
    (htag : m.tag = l.tag) (hm : m.Holds data (kept' place))
    (hother : ∀ q, place ≠ q → kept' q = kept q) :
    Keeps { b with lexicons := b.lexicons.set place m } h kept' := by
  have hlt := (List.getElem?_eq_some_iff.1 hl).1
  refine ⟨hk.registries, by simp [hk.size], fun q x hx => ?_, fun q hq => ?_⟩
  · by_cases hq : place = q
    · subst hq
      rw [List.getElem?_set_self hlt, Option.some.injEq] at hx
      subst hx
      exact ⟨data, htag ▸ hc, hm⟩
    · rw [List.getElem?_set_ne hq] at hx
      rw [hother q hq]
      exact hk.holds q x hx
  · rw [List.length_set] at hq
    rw [hother q (Nat.ne_of_lt (Nat.lt_of_lt_of_le hlt hq))]
    exact hk.fresh q hq

theorem Keeps.after (hk : Keeps b h kept) (c : Call) :
    Keeps (b.perform c).2 (h.after c) (h.keep kept c) := by
  have hsame : (∀ place domain key, h.compiled? place domain key c = none) →
      h.keep kept c = kept := by
    intro hnone
    funext place domain key
    rw [Holdings.keep, hnone, Option.or_none]
  cases c with
  | make tag data =>
    rw [hsame fun _ _ _ => rfl]
    simp only [perform, Holdings.after]
    cases LexiconData.ofValue data with
    | error f => exact hk
    | ok data => exact hk.add tag data
  | derive place tag data =>
    rw [hsame fun _ _ _ => rfl]
    simp only [perform, Holdings.after]
    rcases hk.cases place with ⟨hl, hc⟩ | ⟨l, base, hl, hc, hholds⟩
    · rw [hl, hc]
      exact hk
    · rw [hl, hc]
      cases LexiconData.ofValue data with
      | error f => exact hk
      | ok data =>
        simp only [l.derive_eq_ofData, hholds.source]
        exact hk.add tag (base.merge data)
  | register registry name extension =>
    rw [hsame fun _ _ _ => rfl]
    simp only [perform, Holdings.after, hk.registries]
    cases h.registries[registry]? with
    | none => exact hk
    | some r =>
      simp only
      cases r.register name extension with
      | error f => exact hk
      | ok r => exact ⟨rfl, hk.size, hk.holds, hk.fresh⟩
  | copy registry =>
    rw [hsame fun _ _ _ => rfl]
    simp only [perform, Holdings.after, hk.registries]
    cases h.registries[registry]? with
    | none => exact hk
    | some r => exact ⟨rfl, hk.size, hk.holds, hk.fresh⟩
  | formatter place registry domain key =>
    simp only [perform, Holdings.after, hk.registries]
    rcases hk.cases place with ⟨hl, hc⟩ | ⟨l, data, hl, hc, hholds⟩
    · rw [hl, hsame fun q d k => ?_]
      · exact hk
      · simp only [Holdings.compiled?]
        split
        · rename_i he
          simp [Holdings.pattern?, ← he.1, hc]
        · rfl
    · rw [hl]
      cases hr : h.registries[registry]? with
      | none =>
        rw [hsame fun q d k => ?_]
        · exact hk
        · simp [Holdings.compiled?, hr]
      | some r =>
        simp only [← hk.registries]
        refine hk.set hl hc (l.compiles_formatter r domain key).tag
          (hholds.after_formatter r domain key fun d k => ?_) fun q hq => ?_
        · simp [Holdings.keep, Holdings.compiled?, Holdings.pattern?, hc, hr]
        · funext d k
          simp [Holdings.keep, Holdings.compiled?, hq]
  | ask place q =>
    rw [hsame fun _ _ _ => rfl]
    simp only [perform, Holdings.after]
    cases b.lexicons[place]? <;> exact hk

theorem Keeps.run (hk : Keeps b h kept) (calls : List Call) :
    Keeps (b.run calls) (h.run calls) fun place domain key =>
      (kept place domain key).or (h.first? place domain key calls) := by
  induction calls generalizing b h kept with
  | nil =>
    simp only [Holdings.first?, Option.or_none]
    exact hk
  | cons c calls ih =>
    have hrest := ih (hk.after c)
    simp only [Holdings.keep, Option.or_assoc] at hrest
    exact hrest

theorem Keeps.found (hk : Keeps b h kept) {registry : Nat} {domain key : String} {f : Formatter}
    {r : Registry Extension} (hf : kept place domain key = some f)
    (hr : b.registries[registry]? = some r) :
    (b.perform (.formatter place registry domain key)).1 = .found (some f) := by
  rw [hk.answer, Holdings.answer, ← hk.registries, hr]
  obtain ⟨hl, -⟩ | ⟨l, data, -, hc, hholds⟩ := hk.cases place
  · rw [hk.fresh place (List.getElem?_eq_none_iff.1 hl)] at hf
    contradiction
  · obtain ⟨pattern, hp⟩ := Option.isSome_iff_exists.1 (hholds.known domain key (by rw [hf]; rfl))
    rw [hc]
    simp only [LexiconData.formatter, hp, hf]
    rfl

end Keeps

theorem perform_cases (b : Library) (c : Call) :
    (b.perform c).2 = b ∨
    (∃ l, b.perform c = (.made, { b with lexicons := b.lexicons ++ [l] })) ∨
    (∃ rs, b.perform c = (.registered, { b with registries := rs })) ∨
    ∃ place registry domain key l r, c = .formatter place registry domain key ∧
      b.lexicons[place]? = some l ∧ b.perform c = (.ofFormatter (l.formatter r domain key).1,
        { b with lexicons := b.lexicons.set place (l.formatter r domain key).2 }) := by
  cases c with
  | make tag data =>
    simp only [perform]
    cases LexiconData.ofValue data with
    | error f => exact .inl rfl
    | ok data => exact .inr (.inl ⟨_, rfl⟩)
  | derive place tag data =>
    simp only [perform]
    cases b.lexicons[place]? with
    | none => exact .inl rfl
    | some l =>
      cases LexiconData.ofValue data with
      | error f => exact .inl rfl
      | ok data => exact .inr (.inl ⟨_, rfl⟩)
  | register registry name extension =>
    simp only [perform]
    cases b.registries[registry]? with
    | none => exact .inl rfl
    | some r =>
      simp only
      cases r.register name extension with
      | error f => exact .inl rfl
      | ok r => exact .inr (.inr (.inl ⟨_, rfl⟩))
  | copy registry =>
    simp only [perform]
    cases b.registries[registry]? with
    | none => exact .inl rfl
    | some r => exact .inr (.inr (.inl ⟨_, rfl⟩))
  | formatter place registry domain key =>
    simp only [perform]
    cases hl : b.lexicons[place]? with
    | none => exact .inl rfl
    | some l =>
      cases b.registries[registry]? with
      | none => exact .inl rfl
      | some r => exact .inr (.inr (.inr ⟨place, registry, domain, key, l, r, rfl, hl, rfl⟩))
  | ask place q =>
    simp only [perform]
    cases b.lexicons[place]? <;> exact .inl rfl

/-- A call changes an entry only if it asks for the formatter of that entry, which is then compiled
and was not before. -/
theorem entry_perform (b : Library) (c : Call) {place : Nat} {l : Lexicon}
    (hl : b.lexicons[place]? = some l) (domain key : String) :
    ∃ m, (b.perform c).2.lexicons[place]? = some m ∧
      (m.entry? domain key = l.entry? domain key ∨ ∃ registry f,
        c = .formatter place registry domain key ∧ (b.perform c).1 = .found (some f) ∧
          l.isCompiled domain key = false ∧ m.entry? domain key = some (.compiled f)) := by
  have hlt := (List.getElem?_eq_some_iff.1 hl).1
  obtain hsame | ⟨x, hp⟩ | ⟨rs, hp⟩ | ⟨p, registry, d, k, x, r, rfl, hx, hp⟩ := b.perform_cases c
  · exact ⟨l, by rw [hsame, hl], .inl rfl⟩
  · refine ⟨l, ?_, .inl rfl⟩
    rw [hp, List.getElem?_append_left hlt, hl]
  · exact ⟨l, by rw [hp, hl], .inl rfl⟩
  · rw [hp]
    by_cases he : p = place
    · subst he
      obtain rfl : l = x := Option.some.inj (hl.symm.trans hx)
      refine ⟨_, List.getElem?_set_self hlt, ?_⟩
      rcases l.formatter_entry r d k domain key with hsame | ⟨rfl, rfl, f, hf, hraw, hnew⟩
      · exact .inl hsame
      · exact .inr ⟨registry, f, rfl, congrArg Answer.ofFormatter hf, hraw, hnew⟩
    · exact ⟨l, (List.getElem?_set_ne he).trans hl, .inl rfl⟩

theorem perform_raised {b : Library} {c : Call} {fault : Fault}
    (h : (b.perform c).1 = .raised fault) : (b.perform c).2 = b := by
  obtain hsame | ⟨l, hp⟩ | ⟨rs, hp⟩ | ⟨place, registry, domain, key, l, r, rfl, hl, hp⟩ :=
    b.perform_cases c
  · exact hsame
  · rw [hp] at h
    contradiction
  · rw [hp] at h
    contradiction
  · rw [hp] at h ⊢
    cases hx : (l.formatter r domain key).1 with
    | ok f => simp only [hx, Answer.ofFormatter, reduceCtorEq] at h
    | error f =>
      obtain ⟨hlt, rfl⟩ := List.getElem?_eq_some_iff.1 hl
      rw [Lexicon.formatter_error _ hx, List.set_getElem_self]

/-- Whatever was called before, every answer is what the data as they were written give, with the
first formatter that was compiled for an entry in place of its pattern. -/
theorem run_answers (registries : List (Registry Extension)) (calls : List Call) :
    let b := Library.run ⟨[], registries⟩ calls
    let h := Holdings.run ⟨[], registries⟩ calls
    let kept := fun place domain key => Holdings.first? ⟨[], registries⟩ place domain key calls
    (∀ c, (b.perform c).1 = h.answer kept c) ∧
    (∀ c fault, (b.perform c).1 = .raised fault → (b.perform c).2 = b) ∧
    (∀ (place : Nat) l, b.lexicons[place]? = some l →
      ∃ data, h.contents[place]? = some (l.tag, data) ∧ l.source = data ∧
        ∀ r domain key,
          ((l.formatter r domain key).1 = .ok none ↔ data.pattern? domain key = none) ∧
          ∀ pattern node, data.pattern? domain key = some pattern →
            Pattern.parse pattern = .ok node → (∀ name ∈ node.calls, r.contains name) →
            ∃ f, (l.formatter r domain key).1 = .ok (some f)) ∧
    (∀ (place : Nat) domain key registry f,
      (b.perform (.formatter place registry domain key)).1 = .found (some f) →
      (∃ pattern r, h.pattern? place domain key = some pattern ∧
        b.registries[registry]? = some r ∧ (kept place domain key = some f ∨
          kept place domain key = none ∧ Formatter.ofPattern r pattern = .ok f)) ∧
      ∀ later, let b' := (b.perform (.formatter place registry domain key)).2.run later
        ∀ (other : Nat) r, b'.registries[other]? = some r →
          (b'.perform (.formatter place other domain key)).1 = .found (some f)) ∧
    (∀ c (place : Nat) l domain key, b.lexicons[place]? = some l →
      ∃ m, (b.perform c).2.lexicons[place]? = some m ∧
        (m.entry? domain key = l.entry? domain key ∨ ∃ registry f,
          c = .formatter place registry domain key ∧ (b.perform c).1 = .found (some f) ∧
            l.isCompiled domain key = false ∧ m.entry? domain key = some (.compiled f))) := by
  have hstart : Keeps ⟨[], registries⟩ ⟨[], registries⟩ fun _ _ _ => none :=
    ⟨rfl, rfl, nofun, fun _ _ _ _ => rfl⟩
  have hk := hstart.run calls
  simp only [Option.none_or] at hk
  intro b h kept
  refine ⟨hk.answer, fun c fault => perform_raised, fun place l hl => ?_,
    fun place domain key registry f hf => ?_,
    fun c place l domain key hl => b.entry_perform c hl domain key⟩
  · obtain ⟨data, hdata, hholds⟩ := hk.holds place l hl
    refine ⟨data, hdata, hholds.source, fun r domain key => ⟨?_, ?_⟩⟩
    · rw [hholds.formatter, LexiconData.formatter_none]
    · intro pattern node hp hnode hnames
      rw [hholds.formatter]
      exact data.formatter_registered hp hnode hnames
  · rw [hk.answer] at hf
    refine ⟨hk.registries ▸ Holdings.answer_found hf, fun later other r hr => ?_⟩
    have hlater := (hk.after (.formatter place registry domain key)).run later
    refine hlater.found ?_ hr
    rw [Holdings.keep_found hf, Option.some_or]

end Library

end Phrasebook
