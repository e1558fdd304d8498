import Phrasebook.Proofs.Files.Paths

/-!
# Files are read below the root

A loader reads one file for a tag, and only if the resolved text of its path lies below the resolved
root directory; otherwise the tag or the path is refused and no file is looked at. Without a root
directory of its own and with a plain suffix a loader reads all files of a location from one folder,
the file of each tag under a name of its own.
-/

namespace Phrasebook.Files

variable {l : Loader} {current path : Path} {tag location : String} {f : Fault} {cs : List Char}

theorem hasDots_iff : hasDots cs = true ↔ ['.', '.'] <:+: cs := by
  fun_induction hasDots cs with
  | case1 cs => exact iff_of_true rfl ⟨[], cs, rfl⟩
  | case2 c cs hdots ih =>
    rw [ih, List.infix_cons_iff, or_iff_right]
    rintro ⟨rest, hrest⟩
    obtain ⟨rfl, rfl⟩ := List.cons.inj hrest
    exact hdots rest rfl rfl
  | case3 => simp

/-- A tag that is the name of something, and of nothing in another place. -/
structure SafeTag (tag : String) : Prop where
  nonempty : tag ≠ ""
  level : ¬ ['.', '.'] <:+: tag.toList
  slash : '/' ∉ tag.toList
  backslash : '\\' ∉ tag.toList

/-- The root directory: the loader's own, or the directory part of the location. This is the current
directory if there is no location, the location itself if it ends in a separator, and else the
directory above it, as its end is the start of a file name. -/
inductive Rooted (l : Loader) (current : Path) (location : String) : Path → Prop where
  | given {root} (h : l.root = some root) : Rooted l current location (resolve current root)
  | here (h : l.root = none) (hempty : location = "") : Rooted l current location current
  | directory {c} (h : l.root = none) (hlast : location.toList.getLast? = some c)
      (hc : c = '/' ∨ c = '\\') : Rooted l current location (resolve current location)
  | parent {c} (h : l.root = none) (hlast : location.toList.getLast? = some c)
      (hc : ¬ (c = '/' ∨ c = '\\')) : Rooted l current location (resolveParent current location)

/-- What comes of reading a path: the content of the last file that was written there, or a fault
that names the path. -/
inductive Reads (fs : FileSystem) (path : Path) : Except Fault (List UInt8) → Prop where
  | file {pre bytes post} (h : fs.files = pre ++ (path, bytes) :: post)
      (hlast : ∀ f ∈ post, f.1 ≠ path) (hsize : path.text.utf8ByteSize ≤ maxPathSize) :
      Reads fs path (.ok bytes)
  | tooLong (h : maxPathSize < path.text.utf8ByteSize ∨
        ∃ name ∈ fs.missingName? [] path, maxNameSize < name.utf8ByteSize) :
      Reads fs path (.error (.nameTooLong path))
  | directory (absent : ∀ f ∈ fs.files, f.1 ≠ path) (h : fs.isDirectory path) :
      Reads fs path (.error (.isDirectory path))
  | blocked (absent : ∀ f ∈ fs.files, f.1 ≠ path) (h : fs.isBlocked path) :
      Reads fs path (.error (.notDirectory path))
  | missing (absent : ∀ f ∈ fs.files, f.1 ≠ path) : Reads fs path (.error (.notFound path))

/-- The tag, the location, the suffix or the root directory cannot be used. -/
inductive Refused (l : Loader) (current : Path) (tag location : String) : Fault → Prop where
  | emptyTag (h : tag = "") : Refused l current tag location .emptyTag
  | traversal (h : ['.', '.'] <:+: tag.toList) : Refused l current tag location (.traversal tag)
  | separator (h : '/' ∈ tag.toList ∨ '\\' ∈ tag.toList) :
      Refused l current tag location (.separator tag)
  | nulCharacter (h : '\x00' ∈ (l.describe tag location).toList ∨
        ∃ root ∈ l.root, '\x00' ∈ root.toList) :
      Refused l current tag location .nulCharacter
  | outside (safe : SafeTag tag) (h : ¬ l.rootPath current location <+:
        resolve current (l.describe tag location)) :
      Refused l current tag location (.outside tag)

structure Located (l : Loader) (current : Path) (tag location : String) (path : Path) : Prop where
  safe : SafeTag tag
  resolved : path = resolve current (location ++ tag ++ l.suffix)
  below : l.rootPath current location <+: path

theorem checkTag_cases (tag : String) :
    (checkTag tag = .ok () ∧ SafeTag tag) ∨
      ∃ f, checkTag tag = .error f ∧ ∀ l current location, Refused l current tag location f := by
  unfold checkTag
  by_cases hempty : tag = ""
  · rw [if_pos hempty]
    exact Or.inr ⟨_, rfl, fun _ _ _ => .emptyTag hempty⟩
  · rw [if_neg hempty]
    by_cases hdots : hasDots tag.toList = true
    · rw [if_pos hdots]
      exact Or.inr ⟨_, rfl, fun _ _ _ => .traversal (hasDots_iff.mp hdots)⟩
    · rw [if_neg hdots]
      by_cases hseparator : '/' ∈ tag.toList ∨ '\\' ∈ tag.toList
      · rw [if_pos hseparator]
        exact Or.inr ⟨_, rfl, fun _ _ _ => .separator hseparator⟩
      · rw [if_neg hseparator]
        obtain ⟨hslash, hbackslash⟩ := not_or.mp hseparator
        exact Or.inl ⟨rfl, hempty, mt hasDots_iff.mpr hdots, hslash, hbackslash⟩

theorem locate_cases (l : Loader) (current : Path) (tag location : String) :
    (∃ path, l.locate current tag location = .ok path ∧
      Located l current tag location path) ∨
      ∃ f, l.locate current tag location = .error f ∧ Refused l current tag location f := by
  rcases checkTag_cases tag with ⟨hok, hsafe⟩ | ⟨f, hf, hrefused⟩
  · by_cases hnul : (Loader.hasNul (l.describe tag location) || l.root.any Loader.hasNul) = true
    · refine Or.inr ⟨.nulCharacter, ?_, .nulCharacter ?_⟩
      · simp only [Loader.locate, hok, hnul, if_true]
        rfl
      · cases hroot : l.root <;> simpa [Loader.hasNul, hroot] using hnul
    · by_cases hbelow : (l.rootPath current location).isPrefixOf
          (resolve current (l.describe tag location)) = true
      · refine Or.inl ⟨_, ?_, hsafe, rfl, List.isPrefixOf_iff_prefix.mp hbelow⟩
        simp only [Loader.locate, hok, hnul, hbelow, if_true]
        rfl
      · refine Or.inr ⟨.outside tag, ?_, .outside hsafe (mt List.isPrefixOf_iff_prefix.mpr hbelow)⟩
        simp only [Loader.locate, hok, hnul, hbelow]
        rfl
  · refine Or.inr ⟨f, ?_, hrefused l current location⟩
    simp only [Loader.locate, hf]
    rfl

theorem located_of_locate (h : l.locate current tag location = .ok path) :
    Located l current tag location path := by
  rcases locate_cases l current tag location with ⟨q, hq, hlocated⟩ | ⟨f, hf, -⟩
  · obtain rfl := Except.ok.inj (h.symm.trans hq)
    exact hlocated
  · cases h.symm.trans hf

theorem normal_rootPath (hcurrent : current.Normal) (l : Loader) (location : String) :
    (l.rootPath current location).Normal := by
  unfold Loader.rootPath
  split
  · exact normal_resolve hcurrent _
  · split
    · exact hcurrent
    · split
      · exact normal_resolve hcurrent _
      · exact normal_resolveParent hcurrent _

theorem rooted (l : Loader) (current : Path) (location : String) :
    Rooted l current location (l.rootPath current location) := by
  unfold Loader.rootPath
  split
  · exact .given ‹_›
  · split
    · rename_i hroot _ hlast
      exact .here hroot (String.toList_eq_nil_iff.mp (List.getLast?_eq_none_iff.mp hlast))
    · split
      · exact .directory ‹_› ‹_› ‹_›
      · exact .parent ‹_› ‹_› ‹_›

theorem content?_eq_some {fs : FileSystem} {bytes : List UInt8} (h : fs.content? path = some bytes) :
    ∃ pre post, fs.files = pre ++ (path, bytes) :: post ∧ ∀ f ∈ post, f.1 ≠ path := by
  obtain ⟨⟨p, b⟩, hfind, rfl⟩ := Option.map_eq_some_iff.mp h
  obtain ⟨hp, before, after, hsplit, hbefore⟩ := List.find?_eq_some_iff_append.mp hfind
  obtain rfl : p = path := by simpa using hp
  refine ⟨after.reverse, before.reverse, ?_, fun f hf => ?_⟩
  · simpa using congrArg List.reverse hsplit
  · simpa using hbefore f (List.mem_reverse.mp hf)

theorem content?_eq_none {fs : FileSystem} (h : fs.content? path = none) :
    ∀ f ∈ fs.files, f.1 ≠ path := by
  intro f hf
  have hfind := List.find?_eq_none.mp (Option.map_eq_none_iff.mp h)
  simpa using hfind f (List.mem_reverse.mpr hf)

theorem reads_readBytes (fs : FileSystem) (path : Path) :
    Reads fs path (Loader.readBytes fs path) := by
  unfold Loader.readBytes
  split
  · exact .tooLong (Or.inl ‹_›)
  · rename_i hsize
    split
    · rename_i bytes hbytes
      obtain ⟨pre, post, hfiles, hlast⟩ := content?_eq_some hbytes
      exact .file hfiles hlast (Nat.le_of_not_lt hsize)
    · rename_i hnone
      have habsent := content?_eq_none hnone
      split
      · exact .directory habsent ‹_›
      · split
        · exact .blocked habsent ‹_›
        · split
          · rename_i hname
            cases hmissing : fs.missingName? [] path with
            | none => simp [hmissing] at hname
            | some name =>
              refine .tooLong (Or.inr ⟨name, hmissing, ?_⟩)
              simpa [hmissing] using hname
          · exact .missing habsent

def ofBytes (bytes : List UInt8) : Except Fault Resource := do
  let text ← (Utf8.decode bytes).mapError Fault.encoding
  let document ← (Json.read (Utf8.unifyLines text)).mapError Fault.json
  (Document.read document).mapError Fault.document

theorem load_of_locate {fs : FileSystem} (h : l.locate fs.current tag location = .ok path) :
    l.load fs tag location = (Loader.readBytes fs path).bind ofBytes := by
  rw [Loader.load, h]
  rfl

theorem load_of_refused {fs : FileSystem} (h : l.locate fs.current tag location = .error f) :
    l.load fs tag location = .error f := by
  rw [Loader.load, h]
  rfl

section Plain

variable (hsuffix : '/' ∉ l.suffix.toList)
include hsuffix

theorem Located.eq_enter (h : Located l current tag location path) :
    path = if stem location ++ tag ++ l.suffix = "." then folder current location
      else (folder current location).enter (stem location ++ tag ++ l.suffix) := by
  have hslash : '/' ∉ (tag ++ l.suffix).toList := by
    rw [String.toList_append, List.mem_append, not_or]
    exact ⟨h.safe.slash, hsuffix⟩
  have hne : stem location ++ tag ++ l.suffix ≠ "" := by
    intro he
    obtain ⟨he, -⟩ := String.append_eq_empty_iff.mp he
    exact h.safe.nonempty (String.append_eq_empty_iff.mp he).2
  rw [h.resolved, String.append_assoc, resolve_append current location hslash,
    ← String.append_assoc]
  by_cases hstays : stem location ++ tag ++ l.suffix = "."
  · rw [if_pos (Or.inr hstays), if_pos hstays]
  · rw [if_neg (not_or.mpr ⟨hne, hstays⟩), if_neg hstays]

theorem Located.eq_snoc (h : Located l current tag location path)
    (hstays : stem location ++ tag ++ l.suffix ≠ ".")
    (hup : stem location ++ tag ++ l.suffix ≠ "..") :
    path = folder current location ++ [stem location ++ tag ++ l.suffix] := by
  rw [h.eq_enter hsuffix, if_neg hstays, Path.enter, if_neg hup]

/-- Only a name that is made of dots leads no deeper than the folder. -/
theorem Located.length_le_iff (h : Located l current tag location path) :
    path.length ≤ (folder current location).length ↔
      stem location ++ tag ++ l.suffix = "." ∨ stem location ++ tag ++ l.suffix = ".." := by
  constructor
  · refine fun hle => Decidable.byContradiction fun hdots => ?_
    obtain ⟨hstays, hup⟩ := not_or.mp hdots
    rw [h.eq_snoc hsuffix hstays hup, List.length_append] at hle
    exact absurd hle (Nat.not_succ_le_self _)
  · intro hdots
    rw [h.eq_enter hsuffix]
    rcases hdots with hstays | hup
    · exact Nat.le_of_eq (congrArg List.length (if_pos hstays))
    · rw [hup, if_neg (by decide), Path.enter, if_pos rfl, List.length_dropLast]
      exact Nat.sub_le _ _

end Plain

theorem SafeTag.ne_up {a b other : String} (h : SafeTag tag) (hother : SafeTag other)
    (hstays : a ++ tag ++ b = ".") : a ++ other ++ b ≠ ".." := by
  intro hup
  have hlength := congrArg String.length hstays
  have hpos : tag.length ≠ 0 := fun he => h.nonempty (String.length_eq_zero_iff.mp he)
  simp only [String.length_append] at hlength
  have hone : ".".length = 1 := by decide
  have ha : a = "" := String.length_eq_zero_iff.mp (by omega)
  have hb : b = "" := String.length_eq_zero_iff.mp (by omega)
  rw [ha, hb, String.empty_append, String.append_empty] at hup
  apply hother.level
  rw [hup]
  exact ⟨[], [], rfl⟩

theorem Located.tag_inj {other : String} (hsuffix : '/' ∉ l.suffix.toList)
    (h : Located l current tag location path) (hother : Located l current other location path) :
    tag = other := by
  have hcancel : stem location ++ tag ++ l.suffix = stem location ++ other ++ l.suffix →
      tag = other := fun he =>
    String.toList_inj.mp (by simpa using congrArg String.toList he)
  by_cases hdots : stem location ++ tag ++ l.suffix = "." ∨ stem location ++ tag ++ l.suffix = ".."
  · have hdots' := (hother.length_le_iff hsuffix).mp ((h.length_le_iff hsuffix).mpr hdots)
    rcases hdots with hd | hd
    · exact hcancel (hd.trans (hdots'.resolve_right (h.safe.ne_up hother.safe hd)).symm)
    · exact hcancel (hd.trans (hdots'.resolve_left fun hd' =>
        hother.safe.ne_up h.safe hd' hd).symm)
  · have hdots' := mt ((h.length_le_iff hsuffix).mp ∘ (hother.length_le_iff hsuffix).mpr) hdots
    obtain ⟨hstays, hup⟩ := not_or.mp hdots
    obtain ⟨hstays', hup'⟩ := not_or.mp hdots'
    have heq := (h.eq_snoc hsuffix hstays hup).symm.trans (hother.eq_snoc hsuffix hstays' hup')
    exact hcancel (List.cons.inj (List.append_cancel_left heq)).1

/-- A loader reads one file for a tag, or refuses it and reads none. It reads only for a tag that is
not empty and has no two dots in a row, no slash and no backslash; the file is the one that the
location, the tag and the suffix name together, and its resolved path has the resolved root
directory at its start, name by name. Neither of them has a name left that would lead elsewhere. The
root is the loader's own, or the directory part of the location; what is read is the content of that
one file, or its absence is the fault. If the suffix has no slash, then a file is in the folder of
the location, whatever the tag, apart from the names `.` and `..`, and no two tags have one file. -/
theorem reading_contained (l : Loader) (current : Path) :
    (∀ location, Rooted l current location (l.rootPath current location)) ∧
    (∀ tag location,
      (∃ path, l.locate current tag location = .ok path ∧ SafeTag tag ∧
        path = resolve current (location ++ tag ++ l.suffix) ∧
        l.rootPath current location <+: path ∧
        (current.Normal → path.Normal ∧ (l.rootPath current location).Normal) ∧
        ∀ fs : FileSystem, fs.current = current → Reads fs path (Loader.readBytes fs path) ∧
          l.load fs tag location = (Loader.readBytes fs path).bind ofBytes) ∨
      ∃ f, l.locate current tag location = .error f ∧ Refused l current tag location f ∧
        ∀ fs : FileSystem, fs.current = current → l.load fs tag location = .error f) ∧
    ('/' ∉ l.suffix.toList →
      (∀ tag location path, l.locate current tag location = .ok path →
        stem location ++ tag ++ l.suffix ≠ "." → stem location ++ tag ++ l.suffix ≠ ".." →
        path = folder current location ++ [stem location ++ tag ++ l.suffix]) ∧
      ∀ tag other location path, l.locate current tag location = .ok path →
        l.locate current other location = .ok path → tag = other) := by
  refine ⟨rooted l current, fun tag location => ?_,
    fun hsuffix => ⟨fun tag location path h => ?_, ?_⟩⟩
  · rcases locate_cases l current tag location with ⟨path, hpath, hlocated⟩ | ⟨f, hf, hrefused⟩
    · refine Or.inl ⟨path, hpath, hlocated.safe, hlocated.resolved, hlocated.below, ?_, ?_⟩
      · intro hcurrent
        exact ⟨hlocated.resolved ▸ normal_resolve hcurrent _,
          normal_rootPath hcurrent l location⟩
      · rintro fs rfl
        exact ⟨reads_readBytes fs path, load_of_locate hpath⟩
    · refine Or.inr ⟨f, hf, hrefused, ?_⟩
      rintro fs rfl
      exact load_of_refused hf
  · exact (located_of_locate h).eq_snoc hsuffix
  · intro tag other location path h hother
    exact (located_of_locate h).tag_inj hsuffix (located_of_locate hother)

/-- The location ends in the first part of the file names, and its folder goes up once. -/
theorem reading_contained_named :
    let l : Loader := ⟨".json", none⟩
    let current : Path := ["srv", "app"]
    let location := "../locales//./app-"
    let path : Path := ["srv", "locales", "app-de.json"]
    current.Normal ∧ '/' ∉ l.suffix.toList ∧ l.locate current "de" location = .ok path ∧
      path.Normal ∧ stem location ++ "de" ++ l.suffix ≠ "." ∧
      stem location ++ "de" ++ l.suffix ≠ ".." ∧
      path = folder current location ++ [stem location ++ "de" ++ l.suffix] := by
  intro l current location path
  have hcurrent : current.Normal := by
    unfold Path.Normal
    decide
  have hsuffix : '/' ∉ l.suffix.toList := by decide
  have hlocate : l.locate current "de" location = .ok path := by
    have hsome : (l.locate current "de" location).toOption = some path := by decide +kernel
    cases hlocate : l.locate current "de" location with
    | ok q =>
      rw [hlocate] at hsome
      rw [Option.some.inj hsome]
    | error f =>
      rw [hlocate] at hsome
      cases hsome
  have hstays : stem location ++ "de" ++ l.suffix ≠ "." := by decide +kernel
  have hup : stem location ++ "de" ++ l.suffix ≠ ".." := by decide +kernel
  obtain ⟨-, hread, hplain⟩ := reading_contained l current
  have hnormal : path.Normal := by
    rcases hread "de" location with ⟨q, hq, -, -, -, hq', -⟩ | ⟨f, hf, -⟩
    · obtain rfl := Except.ok.inj (hlocate.symm.trans hq)
      exact (hq' hcurrent).1
    · cases hlocate.symm.trans hf
  exact ⟨hcurrent, hsuffix, hlocate, hnormal, hstays, hup,
    (hplain hsuffix).1 "de" location path hlocate hstays hup⟩

end Phrasebook.Files
