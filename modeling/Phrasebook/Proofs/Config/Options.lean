import Phrasebook.Config
import Phrasebook.Proofs.Number.Quotient
import Phrasebook.Proofs.Quantity.Choice

/-!
# Configurations from options

A configuration has a place for the resources, a fallback chain of tags, a default domain that is
not empty and a time limit that is positive, or not a number: the check asks whether the limit is
too short, which what is not a number never is. What is refused is refused as a configuration error,
unless a time is an integer that is too large to be divided, or the value that the message is to
show is too long to be written.
-/

namespace Phrasebook

namespace Duration

variable {d : Duration} {n : Int} {p : Nat} {x q : Float}

def IsPositive : Duration → Prop
  | whole n => 0 < n
  | fractional x => 0 < x

def IsNotANumber : Duration → Prop
  | whole _ => False
  | fractional x => x.isNaN = true

theorem isPositive_iff : d.IsPositive ↔ d.isTooShort = false ∧ ¬ d.IsNotANumber := by
  cases d with
  | whole n => simp [IsPositive, isTooShort, IsNotANumber]
  | fractional x =>
    rw [IsPositive, Number.pos_iff]
    simp [isTooShort, IsNotANumber]

theorem perPowerOfTen?_eq_none_iff (hp : p ≤ 22) :
    d.perPowerOfTen? p = none ↔ ∃ n, d = .whole n ∧ Number.overflowBound * 10 ^ p ≤ n.natAbs := by
  cases d with
  | whole n =>
    have hinf := (Number.ofScientific_isInf_iff n.natAbs hp).1
    simp only [perPowerOfTen?, whole.injEq, exists_eq_left', ← hinf]
    split <;> simp_all
  | fractional x => simp [perPowerOfTen?]

theorem isNaN_quotient (hp : p ≤ 22) (h : d.perPowerOfTen? p = some q) :
    q.isNaN = true ↔ d.IsNotANumber := by
  cases d with
  | whole n =>
    have hnan := (Number.ofScientific_isInf_iff n.natAbs hp).2
    rw [perPowerOfTen?] at h
    split at h
    · cases h
    · obtain rfl := Option.some.inj h
      refine iff_of_false ?_ id
      split
      · rw [Number.isNaN_neg, hnan]
        exact Bool.false_ne_true
      · rw [hnan]
        exact Bool.false_ne_true
  | fractional x =>
    obtain ⟨m, e, hm, hunpack, -⟩ :=
      Number.exists_of_isLarge (Number.ofNat_powers_isLarge p (Nat.lt_succ_of_le hp))
    obtain rfl := Option.some.inj h
    rw [Number.isNaN_div hunpack, IsNotANumber]

end Duration

namespace Config

variable {name shown reason field : String} {v w : Value} {places : Nat} {n : Int} {q : Float}
  {fault : Fault} {f : Fields} {c : Config} {row : String × Value} {rows : List (String × Value)}

/-! ## Checks of the fields -/

theorem invalid_of_quoted (h : v.quoted = some shown) :
    invalid name v reason = .invalid name shown reason := by
  rw [invalid, h]

theorem invalid_of_overlong (h : v.Overlong) : invalid name v reason = .longNumber := by
  rw [invalid, (Value.quoted_eq_none_iff v).mpr h]

def IsLimit (v : Value) (d : Duration) : Prop :=
  Duration.ofValue? v = some d ∧ d.isTooShort = false

def IsChain (v : Value) (tags : List String) : Prop :=
  (∀ s, v ≠ .text s) ∧ v.items? = some (tags.map .text) ∧ "" ∉ tags

theorem tagOf?_eq_some_iff {s : String} : tagOf? v = some s ↔ v = .text s ∧ s ≠ "" := by
  cases v with
  | text t =>
    by_cases ht : t = "" <;> simp [tagOf?, ht]
    grind
  | _ => simp [tagOf?]

theorem mapM_tagOf?_eq_some_iff {items : List Value} {tags : List String} :
    items.mapM tagOf? = some tags ↔ items = tags.map .text ∧ "" ∉ tags := by
  induction items generalizing tags with
  | nil => cases tags <;> simp
  | cons item items ih =>
    rw [List.mapM_cons]
    simp only [bind, pure, Option.bind_eq_some_iff, tagOf?_eq_some_iff, ih, Option.some.injEq]
    constructor
    · rintro ⟨tag, ⟨rfl, htag⟩, tags, ⟨rfl, htags⟩, rfl⟩
      exact ⟨rfl, by simp [Ne.symm htag, htags]⟩
    · rintro ⟨heq, htags⟩
      cases tags with
      | nil => cases heq
      | cons tag tags =>
        obtain ⟨rfl, rfl⟩ := List.cons.inj heq
        rw [List.mem_cons, not_or] at htags
        exact ⟨tag, ⟨rfl, Ne.symm htags.1⟩, tags, ⟨rfl, htags.2⟩, rfl⟩

/-- What is wrong with fields: the first that cannot be taken, with the value that its message shows
and the reason. -/
inductive Fields.Rejects (f : Fields) : String → Value → String → Prop where
  | timeout (h : ∀ d, ¬ IsLimit f.loadTimeout d) :
      f.Rejects "load_timeout" f.loadTimeout "positive number of seconds"
  | baseUrl {d} (htime : IsLimit f.loadTimeout d) (h : ∀ s, f.baseUrl ≠ .text s) :
      f.Rejects "base_url" f.baseUrl "str"
  | sequence {d s} (htime : IsLimit f.loadTimeout d) (hbase : f.baseUrl = .text s)
      (h : (∃ t, f.fallbackLanguages = .text t) ∨ f.fallbackLanguages.items? = none) :
      f.Rejects "fallback_languages" f.fallbackLanguages "sequence of tags"
  | tags {d s items} (htime : IsLimit f.loadTimeout d) (hbase : f.baseUrl = .text s)
      (hne : ∀ t, f.fallbackLanguages ≠ .text t) (hitems : f.fallbackLanguages.items? = some items)
      (h : ∀ tags, ¬ IsChain f.fallbackLanguages tags) :
      f.Rejects "fallback_languages" (.tuple items) "every tag must be a non-empty str"
  | domain {d s tags} (htime : IsLimit f.loadTimeout d) (hbase : f.baseUrl = .text s)
      (hchain : IsChain f.fallbackLanguages tags) (h : ∀ s, s ≠ "" → f.defaultDomain ≠ .text s) :
      f.Rejects "default_domain" f.defaultDomain "non-empty str"

theorem checkTimeout_ok {d : Duration} (hv : Duration.ofValue? v = some d)
    (hlasting : d.isTooShort = false) : checkTimeout v = .ok ⟨d, hlasting⟩ := by
  unfold checkTimeout
  rw [hv]
  exact dif_pos hlasting

theorem checkTimeout_error (h : ∀ d, ¬ IsLimit v d) :
    checkTimeout v = .error (invalid "load_timeout" v "positive number of seconds") := by
  unfold checkTimeout
  split
  · rename_i d hv
    exact dif_neg fun hlasting => h d ⟨hv, hlasting⟩
  · rfl

theorem checkBaseUrl_error (h : ∀ s, v ≠ .text s) :
    checkBaseUrl v = .error (invalid "base_url" v "str") := by
  unfold checkBaseUrl
  split
  · exact absurd rfl (h _)
  · rfl

theorem checkFallbacks_ok {tags : List String} (h : IsChain v tags) :
    checkFallbacks v = .ok tags := by
  obtain ⟨hne, hitems, hempty⟩ := h
  unfold checkFallbacks
  split
  · exact absurd rfl (hne _)
  · rw [hitems]
    dsimp only
    rw [mapM_tagOf?_eq_some_iff.mpr ⟨rfl, hempty⟩]

theorem checkFallbacks_sequence (h : (∃ s, v = .text s) ∨ v.items? = none) :
    checkFallbacks v = .error (invalid "fallback_languages" v "sequence of tags") := by
  unfold checkFallbacks
  split
  · rfl
  · rename_i hne
    rw [h.resolve_left fun ⟨s, hs⟩ => hne s hs]

theorem checkFallbacks_tags {items : List Value} (hne : ∀ s, v ≠ .text s)
    (hitems : v.items? = some items) (h : ∀ tags, ¬ IsChain v tags) :
    checkFallbacks v = .error
      (invalid "fallback_languages" (.tuple items) "every tag must be a non-empty str") := by
  have hnone : items.mapM tagOf? = none := by
    rw [Option.eq_none_iff_forall_ne_some]
    intro tags htags
    obtain ⟨rfl, hempty⟩ := mapM_tagOf?_eq_some_iff.mp htags
    exact h tags ⟨hne, hitems, hempty⟩
  unfold checkFallbacks
  split
  · exact absurd rfl (hne _)
  · rw [hitems]
    dsimp only
    rw [hnone]

theorem checkDomain_ok {s : String} (h : s ≠ "") : checkDomain (.text s) = .ok s := by
  rw [checkDomain, tagOf?_eq_some_iff.mpr ⟨rfl, h⟩]

theorem checkDomain_error (h : ∀ s, s ≠ "" → v ≠ .text s) :
    checkDomain v = .error (invalid "default_domain" v "non-empty str") := by
  have hnone : tagOf? v = none := by
    rw [Option.eq_none_iff_forall_ne_some]
    intro s hs
    obtain ⟨hv, hne⟩ := tagOf?_eq_some_iff.mp hs
    exact h s hne hv
  rw [checkDomain, hnone]

structure Fields.Holds (f : Fields) (c : Config) : Prop where
  time : IsLimit f.loadTimeout c.loadTimeout.duration
  base : f.baseUrl = .text c.baseUrl
  chain : IsChain f.fallbackLanguages c.fallbackLanguages
  domain : f.defaultDomain = .text c.defaultDomain
  named : c.defaultDomain ≠ ""

theorem check_of_holds (h : f.Holds c) : check f = .ok c := by
  unfold check
  rw [checkTimeout_ok h.time.1 h.time.2, h.base, checkFallbacks_ok h.chain, h.domain,
    checkDomain_ok h.named]
  rfl

theorem check_of_rejects (h : f.Rejects name v reason) :
    check f = .error (invalid name v reason) := by
  unfold check
  cases h with
  | timeout h => rw [checkTimeout_error h]; rfl
  | baseUrl htime h => rw [checkTimeout_ok htime.1 htime.2, checkBaseUrl_error h]; rfl
  | sequence htime hbase h =>
    rw [checkTimeout_ok htime.1 htime.2, hbase, checkFallbacks_sequence h]; rfl
  | tags htime hbase hne hitems h =>
    rw [checkTimeout_ok htime.1 htime.2, hbase, checkFallbacks_tags hne hitems h]; rfl
  | domain htime hbase hchain h =>
    rw [checkTimeout_ok htime.1 htime.2, hbase, checkFallbacks_ok hchain, checkDomain_error h]; rfl

theorem holds_or_rejects (f : Fields) :
    (∃ c, f.Holds c) ∨ ∃ name v reason, f.Rejects name v reason := by
  by_cases htime : ∃ d, IsLimit f.loadTimeout d
  case neg => exact .inr ⟨_, _, _, .timeout (not_exists.mp htime)⟩
  obtain ⟨d, htime⟩ := htime
  by_cases hbase : ∃ s, f.baseUrl = .text s
  case neg => exact .inr ⟨_, _, _, .baseUrl htime (not_exists.mp hbase)⟩
  obtain ⟨s, hbase⟩ := hbase
  by_cases hsequence : (∃ t, f.fallbackLanguages = .text t) ∨ f.fallbackLanguages.items? = none
  case pos => exact .inr ⟨_, _, _, .sequence htime hbase hsequence⟩
  rw [not_or, not_exists] at hsequence
  obtain ⟨items, hitems⟩ := Option.ne_none_iff_exists'.mp hsequence.2
  by_cases hchain : ∃ tags, IsChain f.fallbackLanguages tags
  case neg => exact .inr ⟨_, _, _, .tags htime hbase hsequence.1 hitems (not_exists.mp hchain)⟩
  obtain ⟨tags, hchain⟩ := hchain
  by_cases hdomain : ∃ t, t ≠ "" ∧ f.defaultDomain = .text t
  case neg =>
    exact .inr ⟨_, _, _, .domain htime hbase hchain fun t ht heq => hdomain ⟨t, ht, heq⟩⟩
  obtain ⟨t, hne, hdomain⟩ := hdomain
  exact .inl ⟨⟨⟨d, htime.2⟩, s, tags, t⟩, htime, hbase, hchain, hdomain, hne⟩

/-! ## Options -/

def options (rows : List (String × Value)) : List (Value × Value) :=
  rows.map fun row => (.text row.1, row.2)

/-- The name of an option that gives a time, in seconds over `10 ^ places`. -/
def IsTime (name : String) (places : Nat) : Prop := settings.lookup name = some (.time places)

/-- An option that is wrong whatever the others are, with its fault. -/
inductive Unusable : String → Value → Fault → Prop where
  | unknown {name : String} {v : Value} (h : settings.lookup name = none) :
      Unusable name v (.unknown name)
  | noNumber {name : String} {v : Value} {places : Nat} (h : IsTime name places)
      (hv : Duration.ofValue? v = none) : Unusable name v (invalid name v "number")
  | tooLarge {name : String} {n : Int} {places : Nat} (h : IsTime name places)
      (hn : Number.overflowBound * 10 ^ places ≤ n.natAbs) : Unusable name (.int n) .tooLarge

def given? (field : String) (row : String × Value) : Option Value :=
  match settings.lookup row.1 with
  | some (.time places) =>
    if field = "load_timeout" then
      ((Duration.ofValue? row.2).bind (·.perPowerOfTen? places)).map .float
    else none
  | some (.field name) => if name = field then some row.2 else none
  | none => none

def last? (field : String) (rows : List (String × Value)) : Option Value :=
  rows.reverse.findSome? (given? field)

def Fields.updated (f : Fields) (rows : List (String × Value)) : Fields where
  loadTimeout := (last? "load_timeout" rows).getD f.loadTimeout
  baseUrl := (last? "base_url" rows).getD f.baseUrl
  fallbackLanguages := (last? "fallback_languages" rows).getD f.fallbackLanguages
  defaultDomain := (last? "default_domain" rows).getD f.defaultDomain

theorem last?_cons : last? field (row :: rows) = (last? field rows).or (given? field row) := by
  rw [last?, List.reverse_cons, List.findSome?_append, List.findSome?_singleton]
  rfl

theorem last?_singleton : last? field [row] = given? field row := by
  rw [last?_cons]
  rfl

theorem Fields.updated_cons : f.updated (row :: rows) = (f.updated [row]).updated rows := by
  simp only [updated, last?_cons, Option.getD_or]
  rfl

theorem places_le (h : IsTime name places) : places ≤ 22 := by
  obtain ⟨before, after, hsplit, -⟩ := List.lookup_eq_some_iff.mp h
  have hmem : (name, Setting.time places) ∈ settings := by simp [hsplit]
  simp only [settings, List.mem_cons, Prod.mk.injEq, Setting.time.injEq, reduceCtorEq, and_false,
    List.not_mem_nil, or_false] at hmem
  omega

theorem ofValue?_whole (h : Duration.ofValue? v = some (.whole n)) : v = .int n := by
  cases v <;> simp_all [Duration.ofValue?]

theorem apply_of_unusable (h : Unusable name v fault) : apply f (.text name) v = .error fault := by
  unfold apply
  cases h with
  | unknown h => simp only [h]; rfl
  | noNumber h hv =>
    unfold IsTime at h
    simp only [h, hv]
  | tooLarge h hn =>
    have hnone := (Duration.perPowerOfTen?_eq_none_iff (places_le h)).mpr ⟨_, rfl, hn⟩
    unfold IsTime at h
    simp only [h, Duration.ofValue?, hnone]

theorem set_eq_updated (f : Fields) (v : Value) (h : settings.lookup name = some (.field field)) :
    (f.set field v).getD f = f.updated [(name, v)] := by
  have hgiven : ∀ other, given? other (name, v) = if field = other then some v else none := by
    intro other
    rw [given?, h]
  simp only [Fields.updated, last?_singleton, hgiven, Fields.set]
  by_cases htime : field = "load_timeout"
  · subst htime
    rfl
  by_cases hbase : field = "base_url"
  · subst hbase
    rfl
  by_cases hchain : field = "fallback_languages"
  · subst hchain
    rfl
  by_cases hdomain : field = "default_domain"
  · subst hdomain
    rfl
  simp only [if_neg htime, if_neg hbase, if_neg hchain, if_neg hdomain]
  rfl

theorem time_eq_updated (f : Fields) (h : IsTime name places)
    (hq : (Duration.ofValue? v).bind (·.perPowerOfTen? places) = some q) :
    { f with loadTimeout := .float q } = f.updated [(name, v)] := by
  have hgiven : ∀ other, given? other (name, v) =
      if other = "load_timeout" then some (.float q) else none := by
    intro other
    unfold IsTime at h
    simp only [given?, h, hq, Option.map_some]
  simp only [Fields.updated, last?_singleton, hgiven]
  rfl

theorem apply_of_usable (h : ∀ fault, ¬ Unusable name v fault) :
    apply f (.text name) v = .ok (f.updated [(name, v)]) := by
  unfold apply
  dsimp only
  cases hset : settings.lookup name with
  | none => exact absurd (.unknown hset) (h _)
  | some setting =>
    cases setting with
    | field field => rw [← set_eq_updated f v hset]
    | time places =>
      cases hv : Duration.ofValue? v with
      | none => exact absurd (.noNumber hset hv) (h _)
      | some d =>
        dsimp only
        cases hq : d.perPowerOfTen? places with
        | none =>
          obtain ⟨n, rfl, hn⟩ := (Duration.perPowerOfTen?_eq_none_iff (places_le hset)).mp hq
          rw [ofValue?_whole hv] at h
          exact absurd (.tooLarge hset hn) (h _)
        | some q =>
          rw [← time_eq_updated f hset (by rw [hv]; exact hq)]

def FirstUnusable (rows : List (String × Value)) (name : String) (v : Value) : Prop :=
  ∃ before after, rows = before ++ (name, v) :: after ∧
    ∀ row ∈ before, ∀ fault, ¬ Unusable row.1 row.2 fault

theorem usable_or_first (rows : List (String × Value)) :
    (∀ row ∈ rows, ∀ fault, ¬ Unusable row.1 row.2 fault) ∨
      ∃ name v fault, FirstUnusable rows name v ∧ Unusable name v fault := by
  induction rows with
  | nil => exact .inl (by simp)
  | cons row rows ih =>
    by_cases hrow : ∃ fault, Unusable row.1 row.2 fault
    · obtain ⟨fault, hrow⟩ := hrow
      exact .inr ⟨_, _, fault, ⟨[], rows, rfl, by simp⟩, hrow⟩
    rw [not_exists] at hrow
    rcases ih with h | ⟨name, v, fault, ⟨before, after, rfl, hbefore⟩, h⟩
    · exact .inl (List.forall_mem_cons.mpr ⟨hrow, h⟩)
    · exact .inr ⟨name, v, fault,
        ⟨row :: before, after, rfl, List.forall_mem_cons.mpr ⟨hrow, hbefore⟩⟩, h⟩

theorem ofOptions_updated (rows : List (String × Value)) (f : Fields)
    (h : ∀ row ∈ rows, ∀ fault, ¬ Unusable row.1 row.2 fault) :
    (options rows).foldlM (fun f row => apply f row.1 row.2) f = .ok (f.updated rows) := by
  induction rows generalizing f with
  | nil => rfl
  | cons row rows ih =>
    obtain ⟨hrow, hrows⟩ := List.forall_mem_cons.mp h
    rw [Fields.updated_cons, ← ih _ hrows, options, List.map_cons, List.foldlM_cons,
      apply_of_usable hrow]
    rfl

theorem ofOptions_first (f : Fields) (h : FirstUnusable rows name v) (hu : Unusable name v fault) :
    (options rows).foldlM (fun f row => apply f row.1 row.2) f = .error fault := by
  obtain ⟨before, after, rfl, hbefore⟩ := h
  have hsplit : options (before ++ (name, v) :: after) =
      options before ++ (.text name, v) :: options after := List.map_append
  rw [hsplit, List.foldlM_append, ofOptions_updated before f hbefore]
  change (apply (f.updated before) (.text name) v >>= _) = _
  rw [apply_of_unusable hu]
  rfl

/-! ## The time limit -/

theorem last?_eq_some_iff : last? field rows = some w ↔ ∃ before row after,
    rows = before ++ row :: after ∧ given? field row = some w ∧
      ∀ r ∈ after, given? field r = none := by
  rw [last?, List.findSome?_eq_some_iff]
  constructor
  · rintro ⟨passed, row, rest, hrows, hrow, hpassed⟩
    refine ⟨rest.reverse, row, passed.reverse, ?_, hrow, by simpa using hpassed⟩
    rw [← List.reverse_reverse rows, hrows]
    simp
  · rintro ⟨before, row, after, rfl, hrow, hafter⟩
    exact ⟨after.reverse, row, before.reverse, by simp, hrow, by simpa using hafter⟩

theorem isTime_of_given (h : given? "load_timeout" row = some w) :
    ∃ places, IsTime row.1 places := by
  unfold given? at h
  split at h
  · exact ⟨_, ‹_›⟩
  · rename_i name hname
    have hne : name ≠ "load_timeout" := by
      obtain ⟨before, after, hsplit, -⟩ := List.lookup_eq_some_iff.mp hname
      have hmem : (row.1, Setting.field name) ∈ settings := by simp [hsplit]
      simp only [settings, List.mem_cons, Prod.mk.injEq, Setting.field.injEq, reduceCtorEq,
        and_false, List.not_mem_nil, or_false, false_or] at hmem
      rcases hmem with h | h | h | h | h | h <;> rw [h.2] <;> decide
    rw [if_neg hne] at h
    cases h
  · cases h

theorem given_of_isTime (h : IsTime name places) (hu : ∀ fault, ¬ Unusable name v fault) :
    ∃ q, given? "load_timeout" (name, v) = some (.float q) ∧
      (q.isNaN = true ↔ ∃ x, v = .float x ∧ x.isNaN = true) := by
  cases hv : Duration.ofValue? v with
  | none => exact absurd (.noNumber h hv) (hu _)
  | some d =>
    cases hq : d.perPowerOfTen? places with
    | none =>
      obtain ⟨n, rfl, hn⟩ := (Duration.perPowerOfTen?_eq_none_iff (places_le h)).mp hq
      rw [ofValue?_whole hv] at hu
      exact absurd (.tooLarge h hn) (hu _)
    | some q =>
      refine ⟨q, ?_, ?_⟩
      · unfold IsTime at h
        simp only [given?, h, hv, Option.bind_some, hq, Option.map_some, if_pos]
      · rw [Duration.isNaN_quotient (places_le h) hq]
        cases v <;> simp_all [Duration.ofValue?]
        · subst hv
          simp [Duration.IsNotANumber]
        · subst hv
          simp [Duration.IsNotANumber]

/-- The last option that gives a time gives what is not a number. -/
def IsTimedByNaN (rows : List (String × Value)) : Prop :=
  ∃ before name x after places, rows = before ++ (name, .float x) :: after ∧ IsTime name places ∧
    x.isNaN = true ∧ ∀ row ∈ after, ∀ places, ¬ IsTime row.1 places

def settled (rows : List (String × Value)) : Fields := defaultFields.updated rows

theorem isNotANumber_iff (hu : ∀ row ∈ rows, ∀ fault, ¬ Unusable row.1 row.2 fault)
    (h : (settled rows).Holds c) :
    c.loadTimeout.duration.IsNotANumber ↔ IsTimedByNaN rows := by
  have htime : Duration.ofValue? ((last? "load_timeout" rows).getD defaultTimeout.toValue) =
      some c.loadTimeout.duration := h.time.1
  have hgiven : ∀ row ∈ rows, ∀ places, IsTime row.1 places → ∃ q,
      given? "load_timeout" row = some (.float q) ∧
        (q.isNaN = true ↔ ∃ x, row.2 = .float x ∧ x.isNaN = true) :=
    fun row hrow places hplaces => given_of_isTime hplaces (hu row hrow)
  constructor
  · intro hnan
    cases hlast : last? "load_timeout" rows with
    | none =>
      rw [hlast] at htime
      rw [← Option.some.inj htime] at hnan
      have hdefault : ¬ (20.0 : Float).isNaN = true := by decide
      exact absurd hnan hdefault
    | some w =>
      obtain ⟨before, row, after, rfl, hrow, hafter⟩ := last?_eq_some_iff.mp hlast
      obtain ⟨places, hplaces⟩ := isTime_of_given hrow
      obtain ⟨q, hq, hqnan⟩ := hgiven row (by simp) places hplaces
      obtain rfl := Option.some.inj (hrow.symm.trans hq)
      rw [hlast] at htime
      rw [← Option.some.inj htime] at hnan
      obtain ⟨x, hx, hxnan⟩ := hqnan.mp hnan
      refine ⟨before, row.1, x, after, places, by rw [← hx], hplaces, hxnan, fun r hr p hp => ?_⟩
      obtain ⟨q', hq', -⟩ := hgiven r (by simp [hr]) p hp
      rw [hafter r hr] at hq'
      cases hq'
  · rintro ⟨before, name, x, after, places, rfl, hplaces, hnan, hafter⟩
    obtain ⟨q, hq, hqnan⟩ := hgiven (name, .float x) (by simp) places hplaces
    have hlast : last? "load_timeout" (before ++ (name, .float x) :: after) = some (.float q) := by
      refine last?_eq_some_iff.mpr ⟨before, _, after, rfl, hq, fun r hr => ?_⟩
      cases hr' : given? "load_timeout" r with
      | none => rfl
      | some w =>
        obtain ⟨p, hp⟩ := isTime_of_given hr'
        exact absurd hp (hafter r hr p)
    rw [hlast] at htime
    rw [← Option.some.inj htime]
    exact hqnan.mpr ⟨x, rfl, hnan⟩

/-! ## What is refused -/

/-- A value that a message is to show, with the name and the reason that it gives: the first option
that is to be a number and is none, or else what is wrong with the fields. -/
inductive Reported (rows : List (String × Value)) : String → Value → String → Prop where
  | option {name : String} {v : Value} {places : Nat} (first : FirstUnusable rows name v)
      (time : IsTime name places) (hv : Duration.ofValue? v = none) : Reported rows name v "number"
  | field {name : String} {v : Value} {reason : String}
      (usable : ∀ row ∈ rows, ∀ fault, ¬ Unusable row.1 row.2 fault)
      (h : (settled rows).Rejects name v reason) : Reported rows name v reason

/-- The options that are refused. Configuration errors are the faults that name an option. -/
inductive Refused (rows : List (String × Value)) : Fault → Prop where
  | unknown {name : String} {v : Value} (first : FirstUnusable rows name v)
      (h : settings.lookup name = none) : Refused rows (.unknown name)
  | invalid {name : String} {v : Value} {reason shown : String} (h : Reported rows name v reason)
      (hshown : v.quoted = some shown) : Refused rows (.invalid name shown reason)
  | tooLarge {name : String} {n : Int} {places : Nat} (first : FirstUnusable rows name (.int n))
      (time : IsTime name places) (hn : Number.overflowBound * 10 ^ places ≤ n.natAbs) :
      Refused rows .tooLarge
  | longNumber {name : String} {v : Value} {reason : String} (h : Reported rows name v reason)
      (hv : v.Overlong) : Refused rows .longNumber

theorem ofOptions_reported (h : Reported rows name v reason) :
    ofOptions (options rows) = .error (invalid name v reason) := by
  unfold ofOptions
  cases h with
  | option first time hv =>
    rw [ofOptions_first defaultFields first (.noNumber time hv)]
    rfl
  | field usable h =>
    rw [ofOptions_updated rows defaultFields usable]
    exact check_of_rejects h

theorem ofOptions_refused (h : Refused rows fault) : ofOptions (options rows) = .error fault := by
  cases h with
  | unknown first h =>
    unfold ofOptions
    rw [ofOptions_first defaultFields first (.unknown h)]
    rfl
  | invalid h hshown => rw [ofOptions_reported h, invalid_of_quoted hshown]
  | tooLarge first time hn =>
    unfold ofOptions
    rw [ofOptions_first defaultFields first (.tooLarge time hn)]
    rfl
  | longNumber h hv => rw [ofOptions_reported h, invalid_of_overlong hv]

theorem Reported.refused (h : Reported rows name v reason) : ∃ fault, Refused rows fault := by
  cases hshown : v.quoted with
  | some shown => exact ⟨_, .invalid h hshown⟩
  | none => exact ⟨_, .longNumber h ((Value.quoted_eq_none_iff v).mp hshown)⟩

theorem FirstUnusable.refused (h : FirstUnusable rows name v) (hu : Unusable name v fault) :
    ∃ fault, Refused rows fault := by
  cases hu with
  | unknown hname => exact ⟨_, .unknown h hname⟩
  | noNumber htime hv => exact (Reported.option h htime hv).refused
  | tooLarge htime hn => exact ⟨_, .tooLarge h htime hn⟩

/-- Options give a configuration or are refused with one fault. The configuration has a chain of
tags and a domain that are not empty, and a time limit that is positive unless the last option that
gives a time gives what is not a number. The fault is a configuration error unless the first
unusable option is an integer that is too large for a time, or a value to be shown is too long. -/
theorem ofOptions_spec (rows : List (String × Value)) :
    (∃ c, ofOptions (options rows) = .ok c ∧ (∀ fault, ¬ Refused rows fault) ∧
      "" ∉ c.fallbackLanguages ∧ c.defaultDomain ≠ "" ∧
      (c.loadTimeout.duration.IsPositive ↔ ¬ IsTimedByNaN rows)) ∨
    (∃ fault, ofOptions (options rows) = .error fault ∧
      (∀ other, Refused rows other ↔ other = fault) ∧
      (fault.diagnostic.isSome = true ∨ fault = .tooLarge ∨ fault = .longNumber)) := by
  have hrefused : (∃ fault, Refused rows fault) →
      ∃ fault, ofOptions (options rows) = .error fault ∧
        (∀ other, Refused rows other ↔ other = fault) ∧
        (fault.diagnostic.isSome = true ∨ fault = .tooLarge ∨ fault = .longNumber) := by
    rintro ⟨fault, h⟩
    have herror := ofOptions_refused h
    refine ⟨fault, herror, fun other => ⟨fun hother => ?_, by rintro rfl; exact h⟩, ?_⟩
    · exact Except.error.inj ((ofOptions_refused hother).symm.trans herror)
    · cases h with
      | unknown => exact .inl rfl
      | invalid => exact .inl rfl
      | tooLarge => exact .inr (.inl rfl)
      | longNumber => exact .inr (.inr rfl)
  rcases usable_or_first rows with hu | ⟨name, v, fault, hfirst, hunusable⟩
  · rcases holds_or_rejects (settled rows) with ⟨c, hc⟩ | ⟨name, v, reason, hrejects⟩
    · have hok : ofOptions (options rows) = .ok c := by
        unfold ofOptions
        rw [ofOptions_updated rows defaultFields hu]
        exact check_of_holds hc
      refine .inl ⟨c, hok, fun fault h => ?_, hc.chain.2.2, hc.named, ?_⟩
      · rw [ofOptions_refused h] at hok
        cases hok
      · rw [Duration.isPositive_iff, isNotANumber_iff hu hc]
        exact and_iff_right hc.time.2
    · exact .inr (hrefused (Reported.field hu hrejects).refused)
  · exact .inr (hrefused (hfirst.refused hunusable))

end Config

end Phrasebook
