import Phrasebook.Files

/-!
# Paths resolved by their text

Resolving leaves only names of places: none is empty, none stays in place and none goes up. The text
of a path is cut at its last slash into the folder and the name of a file in it; what stands before
the slash alone decides where the folder is.
-/

namespace Phrasebook.Files

variable {s name file : String} {a b cs part : List Char} {p q current : Path}
  {steps : List String}

theorem segments_ne_nil (cs : List Char) : segments cs ≠ [] := by
  cases cs with
  | nil => simp [segments]
  | cons c cs =>
    rw [segments]
    split
    · simp
    · split <;> simp

theorem segments_append_slash (a b : List Char) :
    segments (a ++ '/' :: b) = segments a ++ segments b := by
  induction a with
  | nil => rfl
  | cons c a ih =>
    rw [List.cons_append, segments, segments, ih]
    by_cases hc : c = '/'
    · rw [if_pos hc, if_pos hc, List.cons_append]
    · obtain ⟨part, parts, hparts⟩ := List.exists_cons_of_ne_nil (segments_ne_nil a)
      rw [if_neg hc, if_neg hc, hparts]
      rfl

theorem segments_of_not_mem (h : '/' ∉ cs) : segments cs = [cs] := by
  induction cs with
  | nil => rfl
  | cons c cs ih =>
    rw [List.mem_cons, not_or] at h
    rw [segments, if_neg (Ne.symm h.1), ih h.2]

theorem slash_not_mem_of_mem_segments (h : part ∈ segments cs) : '/' ∉ part := by
  induction cs generalizing part with
  | nil =>
    rw [List.mem_singleton.mp h]
    exact List.not_mem_nil
  | cons c cs ih =>
    rw [segments] at h
    split at h
    · rcases List.mem_cons.mp h with rfl | h
      · exact List.not_mem_nil
      · exact ih h
    · rename_i hc
      obtain ⟨first, parts, hparts⟩ := List.exists_cons_of_ne_nil (segments_ne_nil cs)
      rw [hparts] at h ih
      rcases List.mem_cons.mp h with rfl | h
      · rw [List.mem_cons, not_or]
        exact ⟨Ne.symm hc, ih List.mem_cons_self⟩
      · exact ih (List.mem_cons_of_mem first h)

theorem names_of_slash (h : s.toList = a ++ '/' :: b) :
    names s = names (String.ofList a) ++ names (String.ofList b) := by
  simp [names, h, segments_append_slash]

theorem names_of_not_mem (h : '/' ∉ s.toList) :
    names s = if s = "" ∨ s = "." then [] else [s] := by
  have hnil : s.toList = [] ↔ s = "" := String.toList_eq_nil_iff
  have hdot : s.toList = ['.'] ↔ s = "." := @String.toList_inj s "."
  rw [names, segments_of_not_mem h]
  by_cases hs : s = "" ∨ s = "."
  · rw [if_pos hs]
    rcases hs with hs | hs
    · simp [hnil.mpr hs]
    · simp [hdot.mpr hs]
  · rw [if_neg hs]
    obtain ⟨hempty, hstays⟩ := not_or.mp hs
    simp [hempty, mt hdot.mp hstays]

/-- Where a path leads, there are names only of places, and none that goes up. -/
def Path.Normal (p : Path) : Prop :=
  ∀ name ∈ p, name ≠ "" ∧ name ≠ "." ∧ name ≠ ".." ∧ '/' ∉ name.toList

theorem of_mem_names (h : name ∈ names s) :
    name ≠ "" ∧ name ≠ "." ∧ '/' ∉ name.toList := by
  obtain ⟨part, hpart, rfl⟩ := List.mem_map.mp h
  obtain ⟨hmem, hkept⟩ := List.mem_filter.mp hpart
  obtain ⟨hempty, hstays⟩ := of_decide_eq_true hkept
  refine ⟨fun he => hempty ?_, fun he => hstays ?_, ?_⟩
  · simpa using congrArg String.toList he
  · simpa using congrArg String.toList he
  · rw [String.toList_ofList]
    exact slash_not_mem_of_mem_segments hmem

theorem Path.Normal.enter (hp : p.Normal) (h : name ≠ "" ∧ name ≠ "." ∧ '/' ∉ name.toList) :
    (p.enter name).Normal := by
  obtain ⟨hempty, hstays, hslash⟩ := h
  unfold Path.enter
  split
  · exact fun n hn => hp n (List.dropLast_subset p hn)
  · rename_i hup
    intro n hn
    rcases List.mem_append.mp hn with hn | hn
    · exact hp n hn
    · rw [List.mem_singleton.mp hn]
      exact ⟨hempty, hstays, hup, hslash⟩

theorem Path.Normal.follow (hp : p.Normal)
    (h : ∀ name ∈ steps, name ≠ "" ∧ name ≠ "." ∧ '/' ∉ name.toList) :
    (follow p steps).Normal := by
  induction steps generalizing p with
  | nil => exact hp
  | cons name steps ih =>
    have hp' := hp.enter (h name List.mem_cons_self)
    exact ih hp' fun n hn => h n (List.mem_cons_of_mem name hn)

theorem Path.Normal.origin (hp : current.Normal) (s : String) : (origin current s).Normal := by
  unfold Files.origin
  split
  · exact fun n hn => absurd hn List.not_mem_nil
  · exact hp

theorem normal_resolve (hp : current.Normal) (s : String) : (resolve current s).Normal :=
  (hp.origin s).follow fun _ => of_mem_names

theorem normal_resolveParent (hp : current.Normal) (s : String) :
    (resolveParent current s).Normal :=
  (hp.origin s).follow fun _ h => of_mem_names (List.dropLast_subset _ h)

def stem (s : String) : String :=
  String.ofList (s.toList.reverse.takeWhile (· ≠ '/')).reverse

def folderText (s : String) : String :=
  String.ofList (s.toList.reverse.dropWhile (· ≠ '/')).reverse

def folder (current : Path) (s : String) : Path := resolve current (folderText s)

theorem folderText_append_stem (s : String) : folderText s ++ stem s = s := by
  apply String.toList_inj.mp
  rw [folderText, stem, String.toList_append, String.toList_ofList, String.toList_ofList,
    ← List.reverse_append, List.takeWhile_append_dropWhile, List.reverse_reverse]

theorem slash_not_mem_stem (s : String) : '/' ∉ (stem s).toList := by
  rw [stem, String.toList_ofList, List.mem_reverse]
  intro h
  have hkept := List.all_eq_true.mp List.all_takeWhile '/' h
  simp at hkept

theorem folderText_cases (s : String) :
    folderText s = "" ∨ ∃ a, (folderText s).toList = a ++ ['/'] := by
  rw [folderText]
  cases hd : s.toList.reverse.dropWhile (· ≠ '/') with
  | nil => exact Or.inl rfl
  | cons c rest =>
    right
    have hc : c = '/' := by
      have hhead := List.head?_dropWhile_not (· ≠ '/') s.toList.reverse
      rw [hd] at hhead
      simpa using hhead
    refine ⟨rest.reverse, ?_⟩
    rw [hc, String.toList_ofList, List.reverse_cons]

theorem isAbsolute_folderText_append (s : String) (h : '/' ∉ file.toList) :
    isAbsolute (folderText s ++ file) = isAbsolute (folderText s) := by
  rcases folderText_cases s with hs | ⟨a, ha⟩
  · rw [hs, String.empty_append]
    cases hf : file.toList with
    | nil => simp [isAbsolute, hf]
    | cons c cs =>
      rw [hf, List.mem_cons, not_or] at h
      simp [isAbsolute, hf, Ne.symm h.1]
  · simp only [isAbsolute, String.toList_append, ha]
    cases a <;> rfl

theorem names_folderText_append (s file : String) :
    names (folderText s ++ file) = names (folderText s) ++ names file := by
  rcases folderText_cases s with hs | ⟨a, ha⟩
  · rw [hs, String.empty_append]
    rfl
  · have hfile : (folderText s ++ file).toList = a ++ '/' :: file.toList := by
      rw [String.toList_append, ha]
      simp
    have hnil : names (String.ofList []) = [] := rfl
    rw [names_of_slash hfile, names_of_slash ha, String.ofList_toList, hnil, List.append_nil]

theorem resolve_append (current : Path) (s : String) (h : '/' ∉ file.toList) :
    resolve current (s ++ file) =
      if stem s ++ file = "" ∨ stem s ++ file = "." then folder current s
      else (folder current s).enter (stem s ++ file) := by
  have hslash : '/' ∉ (stem s ++ file).toList := by
    rw [String.toList_append, List.mem_append, not_or]
    exact ⟨slash_not_mem_stem s, h⟩
  have htext : s ++ file = folderText s ++ (stem s ++ file) := by
    rw [← String.append_assoc, folderText_append_stem]
  rw [htext, resolve, names_folderText_append, names_of_not_mem hslash, folder, resolve, origin,
    origin, isAbsolute_folderText_append s hslash, follow, List.foldl_append]
  by_cases hstays : stem s ++ file = "" ∨ stem s ++ file = "."
  · rw [if_pos hstays, if_pos hstays, List.foldl_nil, follow]
  · rw [if_neg hstays, if_neg hstays, List.foldl_cons, List.foldl_nil, follow]

end Phrasebook.Files
