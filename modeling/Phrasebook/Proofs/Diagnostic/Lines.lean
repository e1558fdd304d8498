import Phrasebook.Language
import Phrasebook.Proofs.Formatter.Binding
import Phrasebook.Proofs.Formatter.Calling
import Phrasebook.Proofs.Pattern.Location

/-!
# Diagnostics in a log

A diagnostic takes a line for its message, a line for its place and a line for its hint. Line breaks
in a message are spelled out; hints are written as they are. What is in a hint is either fixed or a
name that a pattern calls, and no such name has a line break in it, so that what strangers choose
never starts a line of its own.
-/

namespace Phrasebook

namespace Text

variable {s t : String} {lines : List String}

def breaksLine (c : Char) : Bool := c = '\n' || c = '\r'

def logLines (s : String) : List String := (s.toList.splitOnP breaksLine).map String.ofList

def IsOneLine (s : String) : Prop := ∀ c ∈ s.toList, breaksLine c = false

instance (s : String) : Decidable (IsOneLine s) :=
  List.decidableBAll (fun c => breaksLine c = false) s.toList

theorem IsOneLine.append (hs : IsOneLine s) (ht : IsOneLine t) : IsOneLine (s ++ t) := by
  intro c hc
  rw [String.toList_append, List.mem_append] at hc
  exact hc.elim (hs c) (ht c)

theorem logLines_intercalate (hne : lines ≠ []) (h : ∀ line ∈ lines, IsOneLine line) :
    logLines (String.intercalate "\n" lines) = lines := by
  have hbreak : "\n".toList = ['\n'] := rfl
  rw [logLines, String.toList_intercalate, hbreak]
  induction lines with
  | nil => exact absurd rfl hne
  | cons line lines ih =>
    obtain ⟨hline, hrest⟩ := List.forall_mem_cons.1 h
    cases lines with
    | nil =>
      have hsingle : ['\n'].intercalate ([line].map String.toList) = line.toList := by simp
      rw [hsingle, List.splitOnP_eq_singleton hline, List.map_singleton, String.ofList_toList]
    | cons next lines =>
      have hsplit : ['\n'].intercalate ((line :: next :: lines).map String.toList) =
          line.toList ++ '\n' :: ['\n'].intercalate ((next :: lines).map String.toList) := by
        simp only [List.map_cons, List.intercalate_cons_cons, List.append_assoc,
          List.singleton_append]
      rw [hsplit, List.splitOnP_append_cons_of_forall_mem hline _ rfl, List.map_cons,
        String.ofList_toList, ih (List.cons_ne_nil _ _) hrest]

theorem isOneLine_toString (n : Nat) : IsOneLine (toString n) := by
  intro c hc
  rw [Nat.toString_eq_repr, Nat.toList_repr] at hc
  have hdigit := Nat.isDigit_of_mem_toDigits (by decide) (by decide) hc
  rw [breaksLine, Bool.or_eq_false_iff, decide_eq_false_iff_not, decide_eq_false_iff_not]
  constructor
  · rintro rfl
    exact absurd hdigit (by decide)
  · rintro rfl
    exact absurd hdigit (by decide)

end Text

open Text

namespace Diagnostic

variable {d : Diagnostic} {name : String}

def headerLine (d : Diagnostic) : String :=
  d.severity.name ++ "[" ++ d.code.name ++ "]: " ++ onOneLine d.message

def placeLine (span : Span) : String :=
  "  --> line " ++ toString span.line ++ ", column " ++ toString span.column

def helpLine (hint : String) : String := "  = help: " ++ hint

theorem format_eq (d : Diagnostic) :
    d.format = String.intercalate "\n" (d.headerLine ::
      (d.span.toList.map placeLine ++ (d.hint.toList.filter (· ≠ "")).map helpLine)) := rfl

theorem isOneLine_onOneLine (s : String) : IsOneLine (onOneLine s) := by
  intro c hc
  rw [onOneLine, String.toList_ofList, List.mem_flatMap] at hc
  obtain ⟨x, -, hx⟩ := hc
  split_ifs at hx with hreturn hfeed
  · rw [List.mem_cons, List.mem_singleton] at hx
    rcases hx with rfl | rfl <;> rfl
  · rw [List.mem_cons, List.mem_singleton] at hx
    rcases hx with rfl | rfl <;> rfl
  · obtain rfl := List.mem_singleton.1 hx
    simp [breaksLine, hreturn, hfeed]

theorem isOneLine_headerLine (d : Diagnostic) : IsOneLine d.headerLine := by
  have hseverity : IsOneLine d.severity.name := by cases d.severity <;> decide
  have hcode : IsOneLine d.code.name := by cases d.code <;> decide
  have hopen : IsOneLine "[" := by decide
  have hclose : IsOneLine "]: " := by decide
  exact (((hseverity.append hopen).append hcode).append hclose).append (isOneLine_onOneLine _)

theorem isOneLine_placeLine (span : Span) : IsOneLine (placeLine span) := by
  have hline : IsOneLine "  --> line " := by decide
  have hcolumn : IsOneLine ", column " := by decide
  exact ((hline.append (isOneLine_toString _)).append hcolumn).append (isOneLine_toString _)

/-- A hint that is there to be read and takes one line, if there is a hint. -/
def HintsPlainly (d : Diagnostic) : Prop := ∀ hint ∈ d.hint, hint ≠ "" ∧ IsOneLine hint

theorem HintsPlainly.logLines_format (h : d.HintsPlainly) :
    logLines d.format =
      d.headerLine :: (d.span.toList.map placeLine ++ d.hint.toList.map helpLine) := by
  have hfull : d.hint.toList.filter (· ≠ "") = d.hint.toList :=
    List.filter_eq_self.2 fun hint hmem => decide_eq_true (h hint (Option.mem_toList.1 hmem)).1
  rw [format_eq, hfull]
  apply logLines_intercalate (List.cons_ne_nil _ _)
  rw [List.forall_mem_cons, List.forall_mem_append, List.forall_mem_map, List.forall_mem_map]
  refine ⟨isOneLine_headerLine d, fun span _ => isOneLine_placeLine span, fun hint hmem => ?_⟩
  have hlead : IsOneLine "  = help: " := by decide
  exact hlead.append (h hint (Option.mem_toList.1 hmem)).2

theorem hintsPlainly_none (h : d.hint = none) : d.HintsPlainly := by
  intro hint hmem
  rw [h] at hmem
  contradiction

theorem hintsPlainly_some {hint : String} (h : d.hint = some hint) (hne : hint ≠ "")
    (hline : IsOneLine hint) : d.HintsPlainly := by
  intro hint' hmem
  obtain rfl := Option.some.inj (h.symm.trans hmem)
  exact ⟨hne, hline⟩

/-! ### The hints -/

theorem hintsPlainly_malformed (cause : Cause) (pattern : String) (n : Nat) :
    (malformed cause pattern n).HintsPlainly := by
  cases cause with
  | unmatchedBracket => exact hintsPlainly_some rfl (by decide +kernel) (by decide +kernel)
  | unknownContext => exact hintsPlainly_some rfl (by decide +kernel) (by decide +kernel)
  | unsupportedReference => exact hintsPlainly_some rfl (by decide +kernel) (by decide +kernel)
  | nestingTooDeep limit => exact hintsPlainly_none rfl

theorem hintsPlainly_noLanguageFound (requested : String) :
    (noLanguageFound requested).HintsPlainly :=
  hintsPlainly_some rfl (by decide +kernel) (by decide +kernel)

theorem hintsPlainly_load {tag : String} {failure : LoadFailure}
    (h : failure.diagnostic tag = some d) : d.HintsPlainly := by
  cases failure with
  | timedOut seconds =>
    obtain rfl := Option.some.inj h
    exact hintsPlainly_some rfl (by decide +kernel) (by decide +kernel)
  | failed reason =>
    obtain rfl := Option.some.inj h
    exact hintsPlainly_none rfl
  | baseFailed base =>
    obtain rfl := Option.some.inj h
    exact hintsPlainly_some rfl (by decide +kernel) (by decide +kernel)
  | ownBase => contradiction
  | baseMissing base => contradiction

theorem isOneLine_of_methodName (h : Pattern.IsMethodName name.toList) : IsOneLine name := by
  have hbreak : ∀ b, breaksLine b = true →
      Pattern.isNameStart b = false ∧ Pattern.isWord b = false := by
    intro b hb
    rw [breaksLine, Bool.or_eq_true, decide_eq_true_eq, decide_eq_true_eq] at hb
    rcases hb with rfl | rfl <;> exact ⟨by decide, by decide⟩
  intro c hc
  obtain ⟨hname, -⟩ := h
  cases hlist : name.toList with
  | nil =>
    rw [hlist] at hc
    exact absurd hc List.not_mem_nil
  | cons x w =>
    rw [hlist] at hname hc
    rw [Pattern.isName, Bool.and_eq_true, List.all_eq_true] at hname
    rw [Bool.eq_false_iff]
    intro hb
    obtain ⟨hstart, hword⟩ := hbreak c hb
    rcases List.mem_cons.1 hc with rfl | hmem
    · rw [hstart] at hname
      exact Bool.false_ne_true hname.1
    · exact Bool.false_ne_true (hword.symm.trans (hname.2 c hmem))

theorem hintsPlainly_unknownExtension (h : IsOneLine name) :
    (unknownExtension name).HintsPlainly := by
  have hlead : IsOneLine "Register it with Localizer.register_extension('" := by decide +kernel
  have htrail : IsOneLine "', func)" := by decide
  refine hintsPlainly_some rfl (fun hempty => ?_) ((hlead.append h).append htrail)
  have hlength := congrArg String.length hempty
  simp [String.length_append] at hlength

end Diagnostic

open Diagnostic

/-- The faults of reading a pattern, of compiling a pattern that was read, of a request that no
language serves, and of loading a lexicon. -/
inductive Fault.Arises : Fault → Prop
  | reading {limit : Int} {pattern : String} {fault : Pattern.Fault}
      (h : Pattern.parseWithin limit pattern = .error fault) : Arises (.pattern fault)
  | compiling {limit : Int} {pattern source : String} {tree : Pattern.Node}
      {r : Registry Extension} {fault : Fault}
      (hp : Pattern.parseWithin limit pattern = .ok tree)
      (h : Formatter.ofNode r source tree = .error fault) : Arises fault
  | resolving {requested : String} {available chain : List String}
      (h : Language.resolve requested available chain = none) : Arises (.noLanguage requested)
  | loading (tag : String) (failure : LoadFailure) (cause : Option Fault) :
      Arises (.load tag failure cause)

theorem Fault.Arises.hintsPlainly {fault : Fault} {d : Diagnostic} (h : fault.Arises)
    (hd : fault.diagnostic = some d) : d.HintsPlainly := by
  cases h with
  | @reading _ _ fault _ =>
    cases fault with
    | malformed m =>
      obtain rfl := Option.some.inj hd
      exact hintsPlainly_malformed _ _ _
    | longNumber => contradiction
  | @compiling _ _ source tree r _ hp h =>
    cases hfirst : r.firstUnknown? tree.calls with
    | some name =>
      rw [Formatter.ofNode_unknown hfirst] at h
      cases h
      obtain rfl := Option.some.inj hd
      have hname : name ∈ tree.calls := List.mem_of_find?_eq_some hfirst
      exact hintsPlainly_unknownExtension
        (isOneLine_of_methodName (Pattern.calls_of_parse hp hname))
    | none =>
      obtain ⟨-, hlong⟩ | ⟨-, f, hf⟩ := Formatter.ofNode_known (r := r) source hfirst
      · rw [hlong] at h
        cases h
        contradiction
      · rw [hf] at h
        contradiction
  | resolving _ =>
    obtain rfl := Option.some.inj hd
    exact hintsPlainly_noLanguageFound _
  | loading tag failure cause => exact hintsPlainly_load hd

/-- A diagnostic in a log takes exactly one line for its message, one for its place if it has one,
and one for its hint if it has one. -/
theorem Fault.logged_on_own_lines {fault : Fault} {d : Diagnostic} (h : fault.Arises)
    (hd : fault.diagnostic = some d) :
    logLines d.format =
      d.headerLine :: (d.span.toList.map placeLine ++ d.hint.toList.map helpLine) :=
  (h.hintsPlainly hd).logLines_format

/-- Both kinds of line breaks, in the pattern that the message quotes. -/
theorem Fault.logged_on_own_lines_broken :
    let m : Pattern.Malformed := ⟨.unknownContext, "a\r[b\nc]", 4⟩
    Fault.Arises (.pattern (.malformed m)) ∧
    Fault.diagnostic (.pattern (.malformed m)) = some m.diagnostic ∧
    logLines m.diagnostic.format =
      ["error[UNKNOWN_CONTEXT]: Unknown context: a\\r[b <-- HERE --> \\nc]",
        "  --> line 1, column 5",
        "  = help: A directive starts with '', '_N', '*', '#' or a function name"] := by
  intro m
  have hread : Pattern.parseWithin 100 "a\r[b\nc]" = .error (.malformed m) :=
    Pattern.faultOf_eq_some (by decide +kernel)
  have harises : Fault.Arises (.pattern (.malformed m)) := .reading hread
  exact ⟨harises, rfl, (Fault.logged_on_own_lines harises rfl).trans (by decide)⟩

/-- A name with a line break, which no pattern calls, would start a line. -/
example : (logLines (Diagnostic.unknownExtension "a\nb").format).length = 3 := by decide +kernel

end Phrasebook
