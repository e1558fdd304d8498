import Phrasebook.Proofs.Pattern.Exact

/-!
# Patterns side by side

What two patterns denote when one is written behind the other. The items of the first are followed
by those of the second, except that two texts which meet become one. The proof is by induction on
the derivation of the first pattern; only its last text is read anew, and only an unpaired tilde at
its end could change the meaning of what comes after it.
-/

namespace Phrasebook.Pattern

variable {limit : Int} {stop : Char → Bool} {final b : Bool} {room : Nat} {c : Char}
  {p q s t u v w : List Char} {node : Node} {ns ms ts nodes : List Node}

/-- The text ends in an odd number of tildes, so that the last of them has none to pair with. -/
def EndsOdd (s : List Char) : Prop :=
  ∃ u n, s = u ++ List.replicate n '~' ∧ n % 2 = 1 ∧ '~' ∉ u.getLast?

/-- The last tilde of the first text does not escape the start of the second. -/
def Fits (p q : List Char) : Prop := ¬ (EndsOdd p ∧ ∃ c ∈ q.head?, isEscapable c = true)

/-- The items of two patterns as the items of both together. -/
inductive Joined : List Node → List Node → List Node → Prop
  | apart {ns ms : List Node} : Joined ns ms (ns ++ ms)
  | merged {ns ms : List Node} {a b : String} :
      Joined (ns ++ [.literal a]) (.literal b :: ms) (ns ++ .literal (a ++ b) :: ms)

theorem Joined.behind (h : Joined ns ms ts) (found : List Node) :
    Joined (found ++ ns) ms (found ++ ts) := by
  cases h with
  | apart =>
    rw [← List.append_assoc]
    exact .apart
  | merged =>
    rw [← List.append_assoc, ← List.append_assoc]
    exact .merged

section Tildes

theorem endsOdd_append {n : Nat} (hn : n % 2 = 1) (hu : '~' ∉ u.getLast?) (hne : u ≠ [])
    (w : List Char) : EndsOdd (w ++ (u ++ List.replicate n '~')) := by
  refine ⟨w ++ u, n, (List.append_assoc ..).symm, hn, ?_⟩
  rw [List.getLast?_eq_some_getLast hne] at hu
  rwa [List.getLast?_append, List.getLast?_eq_some_getLast hne, Option.some_or]

theorem EndsOdd.behind (h : EndsOdd v) (hw : '~' ∉ w.getLast? ∨ '~' ∉ v.head?) :
    EndsOdd (w ++ v) := by
  obtain ⟨u, n, rfl, hn, hu⟩ := h
  by_cases hne : u = []
  · subst hne
    rcases hw with hw | hw
    · exact ⟨w, n, rfl, hn, hw⟩
    · obtain ⟨k, rfl⟩ := Nat.exists_eq_succ_of_ne_zero (by omega : n ≠ 0)
      exact absurd rfl hw
  · exact endsOdd_append hn hu hne w

theorem EndsOdd.escape (h : EndsOdd w) (c : Char) : EndsOdd ('~' :: c :: w) := by
  by_cases hc : c = '~'
  · subst hc
    obtain ⟨u, n, rfl, hn, hu⟩ := h
    by_cases hne : u = []
    · subst hne
      exact ⟨[], n + 2, rfl, by omega, by simp⟩
    · exact endsOdd_append hn hu hne ['~', '~']
  · refine h.behind (w := ['~', c]) (.inl ?_)
    simpa using hc

theorem Spells.closed_or_odd (h : Spells stop final w t) :
    Spells stop false w t ∨ EndsOdd w := by
  induction h with
  | nil => exact .inl .nil
  | escape hc _ ih =>
    rcases ih with ih | ih
    · exact .inl (.escape hc ih)
    · exact .inr (ih.escape _)
  | @tilde _ c w _ hc _ ih =>
    rcases ih with ih | ih
    · exact .inl (.tilde hc ih)
    · refine .inr (ih.behind (w := ['~']) (.inr ?_))
      rintro ⟨⟩
      cases hc
  | @plain _ c _ _ ht hc _ ih =>
    rcases ih with ih | ih
    · exact .inl (.plain ht hc ih)
    · exact .inr (ih.behind (w := [c]) (.inl (by simpa using ht)))
  | last => exact .inr ⟨[], 1, rfl, rfl, by simp⟩

theorem Spells.append {f : Bool} (h : Spells stop f w t) (hf : f = false)
    (hv : Spells stop final v s) : Spells stop final (w ++ v) (t ++ s) := by
  induction h with
  | nil => exact hv
  | escape hc _ ih => exact .escape hc (ih hf)
  | tilde hc _ ih => exact .tilde hc (ih hf)
  | plain ht hc _ ih => exact .plain ht hc (ih hf)
  | last => cases hf

theorem Spells.append_unescapable {f : Bool} (h : Spells stop f w t)
    (hc : isEscapable c = false) (hv : Spells stop final (c :: v) s) :
    Spells stop final (w ++ c :: v) (t ++ s) := by
  induction h with
  | nil => exact hv
  | escape hc' _ ih => exact .escape hc' ih
  | tilde hc' _ ih => exact .tilde hc' ih
  | plain ht hc' _ ih => exact .plain ht hc' ih
  | last => exact .tilde hc hv

theorem Spells.join (h : Spells stop true w t) (hv : Spells stop final v s) (hne : v ≠ [])
    (hfit : Fits w v) : Spells stop final (w ++ v) (t ++ s) := by
  rcases h.closed_or_odd with hw | hw
  · exact hw.append rfl hv
  · cases v with
    | nil => exact absurd rfl hne
    | cons c v =>
      refine h.append_unescapable ?_ hv
      by_cases hc : isEscapable c = true
      · exact absurd ⟨hw, c, rfl, hc⟩ hfit
      · simpa using hc

example : decode (['a', '~'] ++ ['b']) = decode ['a', '~'] ++ decode ['b'] := by decide

example : decode (['a', '~'] ++ [']']) ≠ decode ['a', '~'] ++ decode [']'] := by decide

end Tildes

theorem Derives.bracketed (h : Derives .directive room w nodes) :
    (∃ s, w = '[' :: s) ∧ ∃ s, w = s ++ [']'] := by
  cases h with
  | nothing => exact ⟨⟨_, rfl⟩, ['['], rfl⟩
  | @list _ w v _ _ _ _ _ => exact ⟨⟨_, rfl⟩, '[' :: (w ++ v), rfl⟩
  | @call _ w v _ _ _ _ => exact ⟨⟨_, rfl⟩, '[' :: (w ++ v), rfl⟩

theorem Derives.after_text (h : Derives (.run .outside true) room v nodes) :
    (v = [] ∧ nodes = []) ∨ ∃ s, v = '[' :: s := by
  cases h with
  | done => exact .inl ⟨rfl, rfl⟩
  | nested hw _ =>
    obtain ⟨⟨s, rfl⟩, -⟩ := hw.bracketed
    exact .inr ⟨_, rfl⟩

theorem Fits.behind (h : Fits (w ++ v) q) (hw : '~' ∉ w.getLast? ∨ '~' ∉ v.head?) :
    Fits v q := by
  rintro ⟨hv, hq⟩
  exact h ⟨hv.behind hw, hq⟩

theorem Chunk.join (hw : Chunk .outside true w node) (hfit : Fits w q)
    (hq : Derives (.run .outside false) room q ms) :
    ∃ ts, Derives (.run .outside false) room (w ++ q) ts ∧ Joined [node] ms ts := by
  cases hw with
  | @plain _ w t hne ht =>
    cases hq with
    | done => exact ⟨_, .chunk (.plain hne ht) .done, .apart⟩
    | @chunk _ _ w' v node' nodes hw' hv =>
      cases hw' with
      | @plain _ _ t' hne' ht' =>
        have hfit' : Fits w w' := by
          rintro ⟨hodd, c, hc, he⟩
          refine hfit ⟨hodd, c, ?_, he⟩
          rw [List.head?_append, Option.mem_def.1 hc]
          rfl
        have hjoin := ht.join ht' hne' hfit'
        have hj : Joined ([] ++ [.literal (String.ofList t)])
            (.literal (String.ofList t') :: nodes) _ := .merged
        refine ⟨_, ?_, hj⟩
        rw [← List.append_assoc, ← String.ofList_append]
        exact .chunk (.plain (by simp [hne]) hjoin) hv
    | @nested _ _ _ w' v found nodes hw' hv =>
      obtain ⟨⟨s, rfl⟩, -⟩ := hw'.bracketed
      have hclosed : Spells opensDirective false w t := by
        rcases ht.closed_or_odd with h | h
        · exact h
        · exact absurd ⟨h, '[', rfl, rfl⟩ hfit
      exact ⟨_, .chunk (.plain hne hclosed) (.nested hw' hv), .apart⟩

/-- Two patterns that fit are a pattern together. -/
theorem Derives.join {f : Form} (hp : Derives f room p ns) (hf : f = .run .outside b)
    (hb : b = true → p ≠ []) (hq : Derives (.run .outside false) room q ms) (hfit : Fits p q) :
    ∃ ts, Derives (.run .outside b) room (p ++ q) ts ∧ Joined ns ms ts := by
  induction hp generalizing b with
  | @done _ afterText =>
    cases hf
    cases afterText with
    | false => exact ⟨ms, hq, .apart⟩
    | true => exact absurd rfl (hb rfl)
  | @chunk _ _ w v node nodes hw hv ih =>
    cases hf
    rcases hv.after_text with ⟨rfl, rfl⟩ | ⟨s, rfl⟩
    · rw [List.append_nil] at hfit ⊢
      exact hw.join hfit hq
    · have hopen : '~' ∉ ('[' :: s).head? := by rintro ⟨⟩
      obtain ⟨ts, hts, hj⟩ := ih rfl (fun _ => List.cons_ne_nil _ _) hq (hfit.behind (.inr hopen))
      refine ⟨node :: ts, ?_, hj.behind [node]⟩
      rw [List.append_assoc]
      exact .chunk hw hts
  | @nested _ _ _ w v found nodes hw hv _ ih =>
    cases hf
    have hclose : '~' ∉ w.getLast? := by
      obtain ⟨-, s, rfl⟩ := hw.bracketed
      simp
    obtain ⟨ts, hts, hj⟩ := ih rfl (fun h => nomatch h) hq (hfit.behind (.inl hclose))
    refine ⟨found ++ ts, ?_, hj.behind found⟩
    rw [List.append_assoc]
    exact .nested hw hts
  | none => cases hf
  | argument => cases hf
  | nothing => cases hf
  | list => cases hf
  | call => cases hf

theorem parseWithin_ok {pattern : String} {tree : Node}
    (h : parseWithin limit pattern = .ok tree) :
    ∃ nodes, tree = .sequence nodes ∧
      Derives (.run .outside false) limit.toNat pattern.toList nodes := by
  unfold parseWithin at h
  split at h
  · rename_i nodes hi
    cases h
    exact ⟨nodes, rfl, items_sound (directive_sound limit limit.toNat) hi⟩
  · cases h

theorem parseWithin_of_derives {pattern : String}
    (h : Derives (.run .outside false) limit.toNat pattern.toList nodes) :
    parseWithin limit pattern = .ok (.sequence nodes) := by
  unfold parseWithin
  rw [items_complete limit h]

/-- Two patterns that can be read and that fit can be read together. -/
theorem parseWithin_append {p q : String} {tp tq : Node} (hp : parseWithin limit p = .ok tp)
    (hq : parseWithin limit q = .ok tq) (hfit : Fits p.toList q.toList) :
    ∃ ns ms ts, tp = .sequence ns ∧ tq = .sequence ms ∧
      parseWithin limit (p ++ q) = .ok (.sequence ts) ∧ Joined ns ms ts := by
  obtain ⟨ns, rfl, hns⟩ := parseWithin_ok hp
  obtain ⟨ms, rfl, hms⟩ := parseWithin_ok hq
  obtain ⟨ts, hts, hj⟩ := hns.join rfl (fun h => nomatch h) hms hfit
  rw [← String.toList_append] at hts
  exact ⟨ns, ms, ts, rfl, rfl, parseWithin_of_derives hts, hj⟩

end Phrasebook.Pattern
