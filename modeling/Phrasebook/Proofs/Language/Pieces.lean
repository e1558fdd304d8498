import Phrasebook.Proofs.Language.Tokens

/-!
# The pieces of a request

A request is cut at every character that stands neither in a word nor, as a hyphen, between two
words. Its candidates are what lies between the cuts, as far as anything does: reading from left to
right neither loses a piece nor splits one nor joins two.
-/

namespace Phrasebook.Language

open Pattern (isWord)

variable {tag before rest : List Char} {hyphen : Bool} {c : Char}

/-- A hyphen stands at a place, right between two word characters. -/
def joins (s : List Char) (i : Nat) : Bool :=
  s[i]? == some '-' && (s.take i).getLast?.any isWord && (s.drop (i + 1)).head?.any isWord

/-- A text is cut at a place where no word goes on and no hyphen joins two. -/
def isCut (s : List Char) (i : Nat) : Bool := !s[i]?.any isWord && !joins s i

/-- What lies between the cuts, which are left out. -/
def pieces (s : List Char) : List (List Char) :=
  (s.zipIdx.splitOnP fun x => isCut s x.2).map (·.map Prod.fst)

def piecesBehind (before rest : List Char) : List (List Char) :=
  ((rest.zipIdx before.length).splitOnP fun x => isCut (before ++ rest) x.2).map (·.map Prod.fst)

/-- The pieces that are not empty, the first one together with what has been read of it before. -/
def found (tag : List Char) (ps : List (List Char)) : List (List Char) :=
  (ps.modifyHead (tag ++ ·)).filter (!·.isEmpty)

section Places

theorem joins_at : joins (before ++ c :: rest) before.length =
    (c == '-' && before.getLast?.any isWord && rest.head?.any isWord) := by
  have hhere : (before ++ c :: rest)[before.length]? = some c := by simp
  have hbehind : (before ++ c :: rest).drop (before.length + 1) = rest := by simp
  rw [joins, hhere, hbehind, List.take_left]
  rfl

theorem isCut_at : isCut (before ++ c :: rest) before.length =
    (!isWord c && !(c == '-' && before.getLast?.any isWord && rest.head?.any isWord)) := by
  have hhere : (before ++ c :: rest)[before.length]? = some c := by simp
  rw [isCut, joins_at, hhere]
  rfl

theorem pieces_eq (s : List Char) : pieces s = piecesBehind [] s := rfl

theorem piecesBehind_nil : piecesBehind before [] = [[]] := by
  simp [piecesBehind]

theorem piecesBehind_cons : piecesBehind before (c :: rest) =
    if isCut (before ++ c :: rest) before.length then [] :: piecesBehind (before ++ [c]) rest
    else (piecesBehind (before ++ [c]) rest).modifyHead (c :: ·) := by
  have happ : before ++ [c] ++ rest = before ++ c :: rest := by simp
  have hlen : (before ++ [c]).length = before.length + 1 := by simp
  rw [piecesBehind, piecesBehind, happ, hlen, List.zipIdx_cons,
    List.splitOnP_cons_eq_if_modifyHead]
  split
  · rfl
  · generalize List.splitOnP _ _ = ps
    cases ps <;> rfl

end Places

section Reading

/-- Reading has a tag exactly if a word stands right before `rest`, unless `rest` goes on with one:
then it may also have come to a hyphen that joins the two. -/
def Tracks (before tag rest : List Char) : Prop :=
  rest.head?.any isWord = false → before.getLast?.any isWord = !tag.isEmpty

theorem tracks_behind_word (hc : isWord c = true) : Tracks (before ++ [c]) (tag ++ [c]) rest := by
  intro _
  simp [hc]

theorem tracks_behind_cut (hc : isWord c = false) : Tracks (before ++ [c]) [] rest := by
  intro _
  simp [hc]

theorem scan_keep (hr : Tracks before tag (c :: rest))
    (hc : isCut (before ++ c :: rest) before.length = false) :
    scan tag false (c :: rest) = scan (tag ++ [c]) false rest ∧
      Tracks (before ++ [c]) (tag ++ [c]) rest := by
  rw [isCut_at] at hc
  by_cases hword : isWord c = true
  · refine ⟨?_, tracks_behind_word hword⟩
    rw [scan, if_pos hword, if_neg Bool.false_ne_true]
  · simp only [hword, Bool.not_false, Bool.true_and, Bool.not_eq_false', Bool.and_eq_true,
      beq_iff_eq] at hc
    obtain ⟨⟨rfl, hbefore⟩, hrest⟩ := hc
    refine ⟨?_, fun hnone => ?_⟩
    · have htag : tag ≠ [] := by
        have := hr (by simpa using hword)
        rw [hbefore] at this
        simpa using this.symm
      cases rest with
      | nil => cases hrest
      | cons d rest =>
        -- the word behind the hyphen takes it into the tag
        have hd : isWord d = true := hrest
        rw [scan, if_neg hword, if_pos ⟨rfl, htag, rfl⟩, scan, if_pos hd, if_pos rfl, scan,
          if_pos hd, if_neg Bool.false_ne_true, List.append_assoc]
        rfl
    · rw [hrest] at hnone
      cases hnone

theorem scan_cut (hr : Tracks before tag (c :: rest))
    (hc : isCut (before ++ c :: rest) before.length = true) :
    scan tag false (c :: rest) = (if tag = [] then [] else [tag]) ++ scan [] false rest ∧
      Tracks (before ++ [c]) [] rest := by
  rw [isCut_at, Bool.and_eq_true, Bool.not_eq_true', Bool.not_eq_true'] at hc
  obtain ⟨hword, hjoins⟩ := hc
  have hword' : ¬ isWord c = true := by simp [hword]
  refine ⟨?_, tracks_behind_cut hword⟩
  rw [scan, if_neg hword']
  by_cases htag : tag = []
  · subst htag
    simp
  · rw [if_neg htag]
    split
    · rename_i h
      obtain ⟨rfl, -, -⟩ := h
      have hbefore : before.getLast?.any isWord = true := by
        rw [hr (by simpa using hword)]
        simpa using htag
      cases rest with
      | nil => simp [scan, htag]
      | cons d rest =>
        -- no word stands behind the hyphen, so that it ends the tag and is not read again
        have hd : ¬ isWord d = true := by simpa [hbefore] using hjoins
        rw [scan, if_neg hd, if_neg (by simp), if_neg htag, scan, if_neg hd, if_neg (by simp),
          if_pos rfl]
        rfl
    · rfl

theorem found_nil_cons (tag : List Char) (ps : List (List Char)) :
    found tag ([] :: ps) = (if tag = [] then [] else [tag]) ++ found [] ps := by
  cases tag <;> cases ps <;> simp [found]

theorem found_modifyHead (tag : List Char) (ps : List (List Char)) :
    found tag (ps.modifyHead (c :: ·)) = found (tag ++ [c]) ps := by
  cases ps <;> simp [found]

/-- Reading finds the pieces that are not empty, in their order. -/
theorem scan_eq_found (hr : Tracks before tag rest) :
    scan tag false rest = found tag (piecesBehind before rest) := by
  induction rest generalizing before tag with
  | nil => cases tag <;> simp [scan, piecesBehind_nil, found]
  | cons c rest ih =>
    rw [piecesBehind_cons]
    split
    · rename_i hc
      obtain ⟨hscan, hr'⟩ := scan_cut hr hc
      rw [hscan, ih hr', found_nil_cons]
    · rename_i hc
      obtain ⟨hscan, hr'⟩ := scan_keep hr (by simpa using hc)
      rw [hscan, ih hr', found_modifyHead]

theorem candidates_eq_pieces (requested : String) :
    candidates requested =
      ((pieces requested.toList).filter (!·.isEmpty)).map String.ofList := by
  have hr : Tracks [] [] requested.toList := fun _ => rfl
  have hnothing : ∀ ps : List (List Char), found [] ps = ps.filter (!·.isEmpty) := by
    intro ps
    cases ps <;> rfl
  rw [candidates, scan_eq_found hr, hnothing, pieces_eq]

end Reading

theorem scan_append_separator (hword : isWord c = false) (hhyphen : c ≠ '-') (a b : List Char) :
    scan tag hyphen (a ++ c :: b) = scan tag hyphen a ++ scan [] false b := by
  have hc : ¬ isWord c = true := by simp [hword]
  induction a generalizing tag hyphen with
  | nil =>
    rw [List.nil_append, scan, scan, if_neg hc, if_neg (fun h => hhyphen h.1)]
    split <;> rfl
  | cons d a ih =>
    rw [List.cons_append, scan, scan]
    split
    · exact ih
    · split
      · exact ih
      · split
        · exact ih
        · rw [ih, List.cons_append]

theorem candidates_append_separator (hword : isWord c = false) (hhyphen : c ≠ '-')
    (s t : String) :
    candidates (s ++ String.singleton c ++ t) = candidates s ++ candidates t := by
  have happ : (s ++ String.singleton c ++ t).toList = s.toList ++ c :: t.toList := by simp
  rw [candidates, happ, scan_append_separator hword hhyphen, List.map_append, candidates,
    candidates]

/-- The candidates of a request are exactly the pieces that are not empty where the request is cut
at every character that is neither in a word nor a hyphen right between two words, and each of them
consists of words joined by single hyphens. So whatever stands before and behind any other character
is read on its own, and a tag is its own only candidate. -/
theorem candidates_lie_between_cuts (requested : String) :
    candidates requested =
      ((pieces requested.toList).filter (!·.isEmpty)).map String.ofList ∧
    (∀ piece ∈ pieces requested.toList, piece = [] ∨ IsTag piece) ∧
    (∀ (s t : String) (c : Char), isWord c = false → c ≠ '-' →
      candidates (s ++ String.singleton c ++ t) = candidates s ++ candidates t) ∧
    ∀ t : String, IsTag t.toList → candidates t = [t] := by
  refine ⟨candidates_eq_pieces requested, fun piece hpiece => ?_, fun s t c hword hhyphen => ?_,
    fun t => candidates_of_isTag⟩
  · by_cases hne : piece = []
    · exact .inl hne
    · have hmem : String.ofList piece ∈ candidates requested := by
        rw [candidates_eq_pieces]
        exact List.mem_map_of_mem (List.mem_filter.mpr ⟨hpiece, by simpa using hne⟩)
      have htag := isTag_of_mem_candidates hmem
      rw [String.toList_ofList] at htag
      exact .inr htag
  · exact candidates_append_separator hword hhyphen s t

/-- Of the four hyphens of a request only the second joins two words, so that the others cut it;
hyphens on both sides of a comma join nothing either. -/
theorem candidates_lie_between_cuts_hyphens :
    isWord ',' = false ∧ ',' ≠ '-' ∧ IsTag "zh-Hant-TW".toList ∧
    candidates "-de-DE--x" = ((pieces "-de-DE--x".toList).filter (!·.isEmpty)).map String.ofList ∧
    pieces "-de-DE--x".toList = [[], ['d', 'e', '-', 'D', 'E'], [], ['x']] ∧
    (∀ piece ∈ pieces "-de-DE--x".toList, piece = [] ∨ IsTag piece) ∧
    candidates ("en-" ++ String.singleton ',' ++ "-GB") = candidates "en-" ++ candidates "-GB" ∧
    candidates "zh-Hant-TW" = ["zh-Hant-TW"] := by
  have htag : IsTag "zh-Hant-TW".toList := by
    have hsplit : "zh-Hant-TW".toList =
        ("zh".toList ++ '-' :: "Hant".toList) ++ '-' :: "TW".toList := by decide
    have hword : ∀ {w : String}, w.toList.all isWord = true → ∀ c ∈ w.toList, isWord c = true :=
      List.all_eq_true.mp
    rw [hsplit]
    exact .subtag (.subtag (.word (by decide) (hword (by decide))) (by decide)
      (hword (by decide))) (by decide) (hword (by decide))
  obtain ⟨hpieces, hform, hsep, hself⟩ := candidates_lie_between_cuts "-de-DE--x"
  exact ⟨by decide, by decide, htag, hpieces, by decide, hform,
    hsep "en-" "-GB" ',' (by decide) (by decide), hself "zh-Hant-TW" htag⟩

end Phrasebook.Language
