import Phrasebook.Lexicon

/-!
# The content of a lexicon

What a lexicon says is the table of its patterns as they were written. Data alone are the content of
the lexicon that is made of them. Data over a base keep all that the base says and where it says it,
except that a key of the data takes the pattern of the data; new domains and new keys follow in the
order of the data.
-/

namespace Phrasebook

namespace Table

variable {κ α β : Type} [DecidableEq κ]

omit [DecidableEq κ] in
theorem keys_empty : (empty : Table κ α).keys = [] := rfl

def blend (g : Option α → β → α) (t : Table κ α) (rows : List (κ × β)) : Table κ α :=
  rows.foldl (fun t row => t.insert row.1 (g (t.get? row.1) row.2)) t

theorem lookup_of_not_mem {k : κ} {rows : List (κ × α)} (h : k ∉ rows.map Prod.fst) :
    lookup k rows = none := by
  rw [← lookup_isSome] at h
  simpa using h

theorem get?_blend (g : Option α → β → α) {rows : List (κ × β)} (h : (rows.map Prod.fst).Nodup)
    (t : Table κ α) (k : κ) :
    (blend g t rows).get? k = ((lookup k rows).map (g (t.get? k))).or (t.get? k) := by
  induction rows generalizing t with
  | nil => rfl
  | cons row rows ih =>
    obtain ⟨hrow, hrows⟩ := List.nodup_cons.mp h
    have hstep := ih hrows (t.insert row.1 (g (t.get? row.1) row.2))
    change (blend g (t.insert row.1 (g (t.get? row.1) row.2)) rows).get? k = _
    rw [hstep, get?_insert]
    by_cases hk : row.1 = k
    · subst hk
      simp [lookup, lookup_of_not_mem hrow]
    · simp [lookup, hk]

theorem keys_blend (g : Option α → β → α) {rows : List (κ × β)} (h : (rows.map Prod.fst).Nodup)
    (t : Table κ α) :
    (blend g t rows).keys = t.keys ++ (rows.map Prod.fst).filter (· ∉ t.keys) := by
  induction rows generalizing t with
  | nil => simp [blend]
  | cons row rows ih =>
    obtain ⟨hrow, hrows⟩ := List.nodup_cons.mp h
    have hstep := ih hrows (t.insert row.1 (g (t.get? row.1) row.2))
    change (blend g (t.insert row.1 (g (t.get? row.1) row.2)) rows).keys = _
    rw [hstep, keys_insert]
    by_cases hk : row.1 ∈ t.keys
    · simp [hk]
    · have hfilter : (rows.map Prod.fst).filter (· ∉ t.keys ++ [row.1]) =
          (rows.map Prod.fst).filter (· ∉ t.keys) := by
        apply List.filter_congr
        intro a ha
        have hne : a ≠ row.1 := fun he => hrow (he ▸ ha)
        simp [hne]
      rw [if_neg hk, hfilter]
      simp [hk]

theorem get?_insertAll (t u : Table κ α) (k : κ) :
    (t.insertAll u).get? k = (u.get? k).or (t.get? k) := by
  have h := get?_blend (fun _ x => x) u.nodup t k
  rw [Option.map_id'] at h
  exact h

theorem keys_insertAll (t u : Table κ α) :
    (t.insertAll u).keys = t.keys ++ u.keys.filter (· ∉ t.keys) :=
  keys_blend (fun _ x => x) u.nodup t

theorem rows_ext {rows rows' : List (κ × α)} (h : (rows.map Prod.fst).Nodup)
    (hk : rows.map Prod.fst = rows'.map Prod.fst) (hg : ∀ k, lookup k rows = lookup k rows') :
    rows = rows' := by
  induction rows generalizing rows' with
  | nil => exact (List.map_eq_nil_iff.mp hk.symm).symm
  | cons row rows ih =>
    obtain ⟨row', rows', rfl⟩ : ∃ row' rest, rows' = row' :: rest := by
      cases rows' with
      | nil => contradiction
      | cons row' rest => exact ⟨row', rest, rfl⟩
    obtain ⟨hfst, hrest⟩ := List.cons.inj hk
    obtain ⟨hrow, hrows⟩ := List.nodup_cons.mp h
    have hhead : row.2 = row'.2 := by simpa [lookup, ← hfst] using hg row.1
    have htail : rows = rows' := by
      apply ih hrows hrest
      intro k
      by_cases he : row.1 = k
      · have hk : k ∉ rows.map Prod.fst := he ▸ hrow
        rw [lookup_of_not_mem hk, lookup_of_not_mem (hrest ▸ hk)]
      · simpa [lookup, he, ← hfst] using hg k
    rw [Prod.ext hfst hhead, htail]

theorem ext_get? {t u : Table κ α} (hk : t.keys = u.keys) (hg : ∀ k, t.get? k = u.get? k) :
    t = u := by
  obtain ⟨rows, h⟩ := t
  obtain ⟨rows', h'⟩ := u
  obtain rfl := rows_ext h hk hg
  rfl

theorem map_insert (f : α → β) (t : Table κ α) (k : κ) (x : α) :
    (t.insert k x).map f = (t.map f).insert k (f x) := by
  apply ext_get?
  · simp [keys_insert]
  · intro j
    rw [get?_map, get?_insert, get?_insert, get?_map]
    split <;> rfl

theorem map_blend {γ : Type} {f : α → γ} {g : Option α → β → α} {g' : Option γ → β → γ}
    (h : ∀ o x, f (g o x) = g' (o.map f) x) (rows : List (κ × β)) (t : Table κ α) :
    (blend g t rows).map f = blend g' (t.map f) rows := by
  induction rows generalizing t with
  | nil => rfl
  | cons row rows ih =>
    have hrow : (t.insert row.1 (g (t.get? row.1) row.2)).map f =
        (t.map f).insert row.1 (g' ((t.map f).get? row.1) row.2) := by
      rw [map_insert, h, get?_map]
    have hrows := ih (t.insert row.1 (g (t.get? row.1) row.2))
    rw [hrow] at hrows
    exact hrows

theorem map_map {γ : Type} (f : α → β) (g : β → γ) (t : Table κ α) :
    (t.map f).map g = t.map fun x => g (f x) := by
  apply ext_get?
  · simp
  · intro k
    simp [get?_map, Function.comp_def]

theorem map_id (t : Table κ α) : (t.map fun x => x) = t := by
  apply ext_get?
  · simp
  · intro k
    simp [get?_map]

theorem map_insertAll (f : α → β) (t u : Table κ α) :
    (t.insertAll u).map f = (t.map f).insertAll (u.map f) := by
  apply ext_get?
  · simp [keys_insertAll]
  · intro k
    rw [get?_map, get?_insertAll, get?_insertAll, get?_map, get?_map]
    cases u.get? k <;> rfl

theorem insertAll_empty (t : Table κ α) : (empty : Table κ α).insertAll t = t := by
  apply ext_get?
  · simp [keys_insertAll, keys_empty]
  · intro k
    simp [get?_insertAll]

end Table

namespace LexiconData

def pattern? (data : LexiconData) (domain key : String) : Option String :=
  (data.get? domain).bind (·.get? key)

def keysOf (data : LexiconData) (domain : String) : List String :=
  ((data.get? domain).map Table.keys).getD []

/-- Some data are merged on top of others, domain by domain and key by key. -/
structure Overlays (content base data : LexiconData) : Prop where
  pattern? : ∀ domain key,
    content.pattern? domain key = (data.pattern? domain key).or (base.pattern? domain key)
  domains : content.keys = base.keys ++ data.keys.filter (· ∉ base.keys)
  keys : ∀ domain, content.keysOf domain =
    base.keysOf domain ++ (data.keysOf domain).filter (· ∉ base.keysOf domain)

def merge (base data : LexiconData) : LexiconData :=
  Table.blend (fun there entries => (there.getD .empty).insertAll entries) base data.entries

theorem get?_merge (base data : LexiconData) (domain : String) :
    (base.merge data).get? domain =
      ((data.get? domain).map ((base.get? domain).getD .empty).insertAll).or (base.get? domain) :=
  Table.get?_blend _ data.nodup base domain

theorem overlays_merge (base data : LexiconData) : (base.merge data).Overlays base data where
  pattern? domain key := by
    unfold pattern?
    rw [get?_merge]
    cases data.get? domain with
    | none => rfl
    | some entries =>
      cases base.get? domain with
      | none => simp [Table.get?_insertAll]
      | some old => simp [Table.get?_insertAll]
  domains := Table.keys_blend _ data.nodup base
  keys domain := by
    unfold keysOf
    rw [get?_merge]
    cases data.get? domain with
    | none => simp
    | some entries =>
      cases base.get? domain with
      | none => simp [Table.keys_insertAll, Table.keys_empty]
      | some old => simp [Table.keys_insertAll]

theorem content_ext {x y : LexiconData} (hd : x.keys = y.keys)
    (hk : ∀ domain, x.keysOf domain = y.keysOf domain)
    (hp : ∀ domain key, x.pattern? domain key = y.pattern? domain key) : x = y := by
  apply Table.ext_get? hd
  intro domain
  have hsame : domain ∈ x.keys ↔ domain ∈ y.keys := by rw [hd]
  rw [← Table.contains_iff, ← Table.contains_iff, Table.contains, Table.contains] at hsame
  have hkeys := hk domain
  have hpatterns := hp domain
  unfold keysOf at hkeys
  unfold pattern? at hpatterns
  cases hx : x.get? domain with
  | none =>
    cases hy : y.get? domain with
    | none => rfl
    | some v => simp [hx, hy] at hsame
  | some u =>
    cases hy : y.get? domain with
    | none => simp [hx, hy] at hsame
    | some v =>
      simp only [hx, hy, Option.map_some, Option.getD_some] at hkeys
      simp only [hx, hy, Option.bind_some] at hpatterns
      rw [Table.ext_get? hkeys hpatterns]

theorem Overlays.eq_merge {content base data : LexiconData} (h : content.Overlays base data) :
    content = base.merge data := by
  have hm := overlays_merge base data
  apply content_ext
  · rw [h.domains, hm.domains]
  · intro domain
    rw [h.keys, hm.keys]
  · intro domain key
    rw [h.pattern?, hm.pattern?]

end LexiconData

namespace Lexicon

theorem pattern_raw (entries : Table String String) :
    (entries.map Entry.raw).map Entry.pattern = entries := by
  rw [Table.map_map]
  exact Table.map_id entries

theorem source_overlay (domains : Table String (Table String Entry)) (data : LexiconData) :
    (overlay domains data).map (fun entries => entries.map Entry.pattern) =
      LexiconData.merge (domains.map fun entries => entries.map Entry.pattern) data := by
  have hrow : ∀ (there : Option (Table String Entry)) (entries : Table String String),
      ((there.getD .empty).insertAll (entries.map .raw)).map Entry.pattern =
        ((there.map (Table.map Entry.pattern)).getD .empty).insertAll entries := by
    intro there entries
    rw [Table.map_insertAll, pattern_raw]
    cases there <;> rfl
  exact Table.map_blend (f := Table.map Entry.pattern)
    (g := fun (there : Option (Table String Entry)) (entries : Table String String) =>
      (there.getD .empty).insertAll (entries.map .raw)) hrow data.entries domains

theorem source_derive (l : Lexicon) (tag : String) (data : LexiconData) :
    (l.derive tag data).source = LexiconData.merge l.source data := by
  have hraw : (l.source.map fun entries => entries.map Entry.raw).map
      (fun entries => entries.map Entry.pattern) = l.source := by
    rw [Table.map_map]
    simp only [pattern_raw]
    exact Table.map_id l.source
  have h := source_overlay (l.source.map fun entries => entries.map Entry.raw) data
  rw [hraw] at h
  exact h

theorem source_ofData (tag : String) (data : LexiconData) : (ofData tag data).source = data := by
  have h : (ofData tag data).source = LexiconData.merge .empty data := source_overlay .empty data
  rw [h]
  apply Table.ext_get?
  · rw [(LexiconData.overlays_merge .empty data).domains]
    simp [Table.keys_empty]
  · intro domain
    rw [LexiconData.get?_merge]
    cases data.get? domain with
    | none => rfl
    | some entries => simp [Table.insertAll_empty]

theorem derive_overlays (l : Lexicon) (tag : String) (data : LexiconData) :
    LexiconData.Overlays (l.derive tag data).source l.source data := by
  rw [source_derive]
  exact LexiconData.overlays_merge l.source data

end Lexicon

end Phrasebook
