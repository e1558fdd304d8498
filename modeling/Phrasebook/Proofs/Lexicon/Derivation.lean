import Phrasebook.Proofs.Lexicon.Library

/-!
# Deriving twice

Data that are laid over a base can have other data laid over them, before or after they meet the
base: the outcome is the same, in its patterns and in the order of its domains and keys. So a lexicon
that is derived from a derived one could have been derived at once, and a lexicon that is made of
data could have been made of all the data that were laid over them. The base takes no part in what
is done with the lexicons that are derived from it.
-/

namespace Phrasebook

namespace LexiconData

theorem append_new_assoc (a b c : List String) :
    a ++ b.filter (· ∉ a) ++ c.filter (· ∉ a ++ b.filter (· ∉ a)) =
      a ++ (b ++ c.filter (· ∉ b)).filter (· ∉ a) := by
  have hnew : ∀ x, decide (x ∉ a ++ b.filter (· ∉ a)) = (decide (x ∉ a) && decide (x ∉ b)) := by
    intro x
    by_cases ha : x ∈ a <;> simp [ha]
  rw [List.append_assoc, List.filter_append, List.filter_filter]
  simp only [hnew]

theorem merge_assoc (base d₁ d₂ : LexiconData) :
    (base.merge d₁).merge d₂ = base.merge (d₁.merge d₂) := by
  have hbase := overlays_merge base d₁
  have hboth := overlays_merge d₁ d₂
  have hleft := overlays_merge (base.merge d₁) d₂
  have hright := overlays_merge base (d₁.merge d₂)
  apply content_ext
  · rw [hleft.domains, hright.domains, hbase.domains, hboth.domains]
    exact append_new_assoc _ _ _
  · intro domain
    rw [hleft.keys, hright.keys, hbase.keys, hboth.keys]
    exact append_new_assoc _ _ _
  · intro domain key
    rw [hleft.pattern?, hright.pattern?, hbase.pattern?, hboth.pattern?, Option.or_assoc]

end LexiconData

namespace Lexicon

variable {l : Lexicon}

theorem domainNames_source (l : Lexicon) : l.source.keys = l.domainNames :=
  Table.keys_map _ l.domains

theorem isCompiled_ofData (tag : String) (data : LexiconData) (domain key : String) :
    (ofData tag data).isCompiled domain key = false := by
  rw [isCompiled, entry_ofData]
  cases data.pattern? domain key <;> rfl

theorem isCompiled_derive (l : Lexicon) (tag : String) (data : LexiconData) (domain key : String) :
    (l.derive tag data).isCompiled domain key = false := by
  rw [derive_eq_ofData]
  exact isCompiled_ofData tag _ domain key

/-- What deriving from a derived lexicon gives, said of the first base. -/
theorem derive_derive (l : Lexicon) (t u : String) (d₁ d₂ : LexiconData) :
    (l.derive t d₁).derive u d₂ = l.derive u (LexiconData.merge d₁ d₂) := by
  rw [derive_eq_ofData, source_derive, LexiconData.merge_assoc, ← derive_eq_ofData]

/-- What a derived lexicon says, in the terms of its base. -/
structure Overlays (m l : Lexicon) (data : LexiconData) : Prop where
  pattern? : ∀ domain key,
    m.pattern? domain key = (data.pattern? domain key).or (l.pattern? domain key)
  domains : m.domainNames = l.domainNames ++ data.keys.filter (· ∉ l.domainNames)
  keys : ∀ domain,
    m.keys domain = l.keys domain ++ (data.keysOf domain).filter (· ∉ l.keys domain)

theorem overlays_derive (l : Lexicon) (tag : String) (data : LexiconData) :
    (l.derive tag data).Overlays l data := by
  have h := l.derive_overlays tag data
  refine ⟨fun domain key => ?_, ?_, fun domain => ?_⟩
  · rw [← pattern?_source, ← pattern?_source, h.pattern?]
  · rw [← domainNames_source, ← domainNames_source, h.domains]
  · rw [← keysOf_source, ← keysOf_source, h.keys]

end Lexicon

namespace Library

variable {b : Library} {place : Nat} {l : Lexicon} {v v₁ v₂ : Value} {d₁ d₂ : LexiconData}

theorem perform_make (b : Library) (tag : String) {data : LexiconData}
    (h : LexiconData.ofValue v = .ok data) :
    b.perform (.make tag v) = (.made, { b with lexicons := b.lexicons ++ [.ofData tag data] }) := by
  simp only [perform, h]

theorem perform_derive (tag : String) {data : LexiconData} (hl : b.lexicons[place]? = some l)
    (h : LexiconData.ofValue v = .ok data) :
    b.perform (.derive place tag v) =
      (.made, { b with lexicons := b.lexicons ++ [l.derive tag data] }) := by
  simp only [perform, hl, h]

/-- No call changes a lexicon, but to compile an entry of it that is asked for. -/
theorem lexicon_perform (b : Library) (c : Call) (hl : b.lexicons[place]? = some l) :
    ∃ m, (b.perform c).2.lexicons[place]? = some m ∧ m.source = l.source ∧
      (m = l ∨ ∃ registry domain key, c = .formatter place registry domain key) := by
  have hlt := (List.getElem?_eq_some_iff.1 hl).1
  obtain hsame | ⟨x, hp⟩ | ⟨rs, hp⟩ | ⟨p, registry, d, k, x, r, rfl, hx, hp⟩ := b.perform_cases c
  · exact ⟨l, by rw [hsame, hl], rfl, .inl rfl⟩
  · refine ⟨l, ?_, rfl, .inl rfl⟩
    rw [hp, List.getElem?_append_left hlt, hl]
  · exact ⟨l, by rw [hp, hl], rfl, .inl rfl⟩
  · rw [hp]
    by_cases he : p = place
    · subst he
      obtain rfl : l = x := Option.some.inj (hl.symm.trans hx)
      exact ⟨_, List.getElem?_set_self hlt, (l.compiles_formatter r d k).source,
        .inr ⟨registry, d, k, rfl⟩⟩
    · exact ⟨l, (List.getElem?_set_ne he).trans hl, rfl, .inl rfl⟩

theorem source_run (calls : List Call) (hl : b.lexicons[place]? = some l) :
    ∃ m, (b.run calls).lexicons[place]? = some m ∧ m.source = l.source := by
  induction calls generalizing b l with
  | nil => exact ⟨l, hl, rfl⟩
  | cons c calls ih =>
    obtain ⟨m, hm, hsource, -⟩ := b.lexicon_perform c hl
    obtain ⟨n, hn, hsource'⟩ := ih hm
    exact ⟨n, hn, hsource'.trans hsource⟩

theorem lexicon_run {calls : List Call} (hl : b.lexicons[place]? = some l)
    (hcalls : ∀ c ∈ calls, ∀ registry domain key, c ≠ .formatter place registry domain key) :
    (b.run calls).lexicons[place]? = some l := by
  induction calls generalizing b with
  | nil => exact hl
  | cons c calls ih =>
    obtain ⟨hc, hrest⟩ := List.forall_mem_cons.1 hcalls
    obtain ⟨m, hm, -, rfl | ⟨registry, domain, key, rfl⟩⟩ := b.lexicon_perform c hl
    · exact ih hm hrest
    · exact absurd rfl (hc registry domain key)

theorem source_of_made {b₀ : Library} {tag : String} {data : LexiconData} {calls : List Call}
    (h : LexiconData.ofValue v = .ok data) (hb : b = (b₀.perform (.make tag v)).2.run calls)
    (hl : b.lexicons[b₀.lexicons.length]? = some l) : l.source = data := by
  have hmade : (b₀.perform (.make tag v)).2.lexicons[b₀.lexicons.length]? =
      some (.ofData tag data) := by
    rw [perform_make b₀ tag h]
    exact List.getElem?_concat_length
  obtain ⟨m, hm, hsource⟩ := source_run calls hmade
  rw [← hb, hl] at hm
  obtain rfl := Option.some.inj hm
  rw [hsource, Lexicon.source_ofData]

/-- A derived lexicon says what its data say and otherwise what its base says, the domains and keys
of the base first and in their order, and nothing in it is compiled. Its base and all other lexicons
stay as they were, the base also through whatever is done with the others later. To derive from it is
to derive from its base with the one data laid over the other, or, if the base was made of data, to
make a lexicon of them all. -/
theorem derivation_overlays (hl : b.lexicons[place]? = some l)
    (h₁ : LexiconData.ofValue v₁ = .ok d₁) (h₂ : LexiconData.ofValue v₂ = .ok d₂) (t u : String) :
    let m := l.derive t d₁
    let n := m.derive u d₂
    let b₁ : Library := { b with lexicons := b.lexicons ++ [m] }
    let b₂ : Library := { b with lexicons := b.lexicons ++ [m] ++ [n] }
    (b.perform (.derive place t v₁) = (.made, b₁) ∧ b₁.lexicons[place]? = some l ∧
      b₁.lexicons[b.lexicons.length]? = some m ∧
      b₁.perform (.derive b.lexicons.length u v₂) = (.made, b₂) ∧
      ∀ calls, (∀ c ∈ calls, ∀ registry domain key, c ≠ .formatter place registry domain key) →
        (b₂.run calls).lexicons[place]? = some l) ∧
    (m.tag = t ∧ m.Overlays l d₁ ∧ ∀ domain key, m.isCompiled domain key = false) ∧
    (∃ d : LexiconData, d.Overlays d₁ d₂) ∧
    ∀ d : LexiconData, d.Overlays d₁ d₂ → n = l.derive u d ∧
      ∀ (b₀ : Library) tag v₀ d₀ calls, LexiconData.ofValue v₀ = .ok d₀ →
        b = (b₀.perform (.make tag v₀)).2.run calls → place = b₀.lexicons.length →
        ∀ full : LexiconData, full.Overlays d₀ d → n = .ofData u full := by
  intro m n b₁ b₂
  have hlt := (List.getElem?_eq_some_iff.1 hl).1
  have hbase : b₁.lexicons[place]? = some l := (List.getElem?_append_left hlt).trans hl
  have hderived : b₁.lexicons[b.lexicons.length]? = some m := List.getElem?_concat_length
  have hbase' : b₂.lexicons[place]? = some l :=
    (List.getElem?_append_left (List.getElem?_eq_some_iff.1 hbase).1).trans hbase
  refine ⟨⟨perform_derive t hl h₁, hbase, hderived, perform_derive u hderived h₂,
    fun calls => lexicon_run hbase'⟩, ⟨rfl, l.overlays_derive t d₁, l.isCompiled_derive t d₁⟩,
    ⟨_, LexiconData.overlays_merge d₁ d₂⟩, fun d hd => ?_⟩
  have honce : n = l.derive u d := by
    rw [hd.eq_merge]
    exact l.derive_derive t u d₁ d₂
  refine ⟨honce, fun b₀ tag v₀ d₀ calls hv₀ hb hplace full hfull => ?_⟩
  subst hplace
  rw [honce, l.derive_eq_ofData, source_of_made hv₀ hb hl, hfull.eq_merge]

/-- The greeting is compiled in the base; one derived lexicon takes it over as it was written. -/
theorem derivation_overlays_compiled :
    let l : Lexicon := ⟨"en", .ofList [("*", .ofList [
      ("hello", .compiled ⟨"Hi", "\"Hi\"", .text "Hi"⟩), ("bye", .raw "Bye")])]⟩
    let d₁ : LexiconData := .ofList [("menu", .empty), ("*", .ofList [("new", "New"), ("bye", "Ta")])]
    let d₂ : LexiconData := .ofList [("menu", .ofList [("open", "Open")])]
    let m := l.derive "a" d₁
    (l.isCompiled "*" "hello" = true ∧ m.isCompiled "*" "hello" = false) ∧
    (m.pattern? "*" "hello" = some "Hi" ∧ m.pattern? "*" "bye" = some "Ta" ∧
      m.domainNames = ["*", "menu"] ∧ m.keys "*" = ["hello", "bye", "new"]) ∧
    m.derive "b" d₂ = l.derive "b" (.merge d₁ d₂) := by
  intro l d₁ d₂ m
  have hl : (Library.mk [l] []).lexicons[0]? = some l := rfl
  have h₁ : LexiconData.ofValue (.map [(.text "menu", .map []), (.text "*", .map [
      (.text "new", .text "New"), (.text "bye", .text "Ta")])]) = .ok d₁ := rfl
  have h₂ : LexiconData.ofValue (.map [(.text "menu", .map [(.text "open", .text "Open")])]) =
      .ok d₂ := rfl
  obtain ⟨-, ⟨-, hm, hraw⟩, -, honce⟩ := derivation_overlays hl h₁ h₂ "a" "b"
  refine ⟨⟨rfl, hraw _ _⟩, ⟨?_, ?_, ?_, ?_⟩, (honce _ (LexiconData.overlays_merge d₁ d₂)).1⟩
  · exact hm.pattern? "*" "hello"
  · exact hm.pattern? "*" "bye"
  · exact hm.domains
  · exact hm.keys "*"

end Library

end Phrasebook
