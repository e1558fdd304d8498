import Phrasebook.Proofs.Pattern.Parsing

/-!
# Where reading stops

The patterns that cannot be read, in the terms of the grammar. `Reaches` says which characters can
stand before a point that a reader comes to, with how many directives open; `Halts` says what cannot
be read from such a point, and which fault that is. The readers stop exactly there, by induction on
the room of a directive and on what is left in one direction, and by induction on what stands before
the point in the other.
-/

namespace Phrasebook.Pattern

variable {limit : Int} {room inner depth left k : Nat} {i : Int} {nested : Reader} {place : Place}
  {s u v w x t rest : List Char} {parts found nodes : List Node} {node : Option Node} {m : Method}
  {stop : Stop}

/-- Where a reader may stand: in a run but not in the middle of its text, or right behind the
bracket that opens a directive. -/
inductive Point where
  | run (place : Place)
  | method
  deriving DecidableEq, Repr

def Passage (place : Place) (x : List Char) : Prop := x = [] ∨ ∃ n, Chunk place false x n

/-- `Reaches room point depth u`: a reader that has come through `u` stands at the point, inside
`depth` directives that are open. -/
inductive Reaches (room : Nat) : Point → Nat → List Char → Prop
  | start : Reaches room (.run .outside) 0 []
  | pass {place : Place} {depth : Nat} {u x w : List Char} {found : List Node}
      (h : Reaches room (.run place) depth u) (hx : Passage place x)
      (hw : Derives .directive (room - depth) w found) :
      Reaches room (.run place) depth (u ++ (x ++ w))
  | opens {place : Place} {depth : Nat} {u x : List Char} (h : Reaches room (.run place) depth u)
      (hx : Passage place x) (hd : depth < room) :
      Reaches room .method (depth + 1) (u ++ (x ++ ['[']))
  | first {depth : Nat} {u w : List Char} {m : Method} (h : Reaches room .method depth u)
      (hw : Token w m) : Reaches room (.run .argument) depth (u ++ (w ++ [',']))
  | next {depth : Nat} {u x : List Char} (h : Reaches room (.run .argument) depth u)
      (hx : Passage .argument x) : Reaches room (.run .argument) depth (u ++ (x ++ [',']))

/-- What may follow a reference, or what is refused as one, wherever one is looked for. -/
def Point.Ends : Point → List Char → Prop
  | .run .outside, _ => False
  | .run .argument, v => ∀ c ∈ v.head?, endsArgument c = true
  | .method, v => ∃ c ∈ v.head?, c = ',' ∨ c = ']'

/-- `Halts limit room point depth s stop`: a reader at the point cannot read `s` and stops. -/
inductive Halts (limit : Int) (room : Nat) : Point → Nat → List Char → Stop → Prop
  | tooDeep {place : Place} {x v : List Char} (hx : Passage place x) :
      Halts limit room (.run place) room (x ++ '[' :: v)
        (.malformed (.nestingTooDeep limit) (v.length + 1))
  | unclosed {depth : Nat} {s : List Char} (h : scanMethod s = (s, [])) :
      Halts limit room .method depth s (.malformed .unmatchedBracket (s.length + 1))
  | unknown {depth : Nat} {w v : List Char} {c : Char} (h : scanMethod (w ++ c :: v) = (w, c :: v))
      (hc : c ≠ ',' ∧ c ≠ ']') :
      Halts limit room .method depth (w ++ c :: v) (.malformed .unknownContext (v.length + 1))
  | unsupported {point : Point} {depth : Nat} {v : List Char} (hv : point.Ends v) :
      Halts limit room point depth (['_', '*'] ++ v)
        (.malformed .unsupportedReference (v.length + 2))
  | long {point : Point} {depth k : Nat} {i : Int} {w v : List Char} (hw : Reference w k i)
      (hk : maxReferenceDigits < k) (hv : point.Ends v) :
      Halts limit room point depth (w ++ v) .longReference
  | unended {depth : Nat} {s t : List Char} (h : Spells endsArgument true s t)
      (hk : ∀ k i, Reference s k i → k ≤ maxReferenceDigits) (hs : s ≠ ['_', '*']) :
      Halts limit room (.run .argument) depth s (.malformed .unmatchedBracket 0)

def HaltsIn (limit : Int) (room : Nat) (u s : List Char) (stop : Stop) : Prop :=
  ∃ point depth v r, s = v ++ r ∧ Reaches room point depth (u ++ v) ∧
    Halts limit room point depth r stop

theorem HaltsIn.behind (h : HaltsIn limit room (u ++ w) s stop) :
    HaltsIn limit room u (w ++ s) stop := by
  obtain ⟨point, depth, v, r, rfl, hr, hh⟩ := h
  rw [List.append_assoc] at hr
  exact ⟨point, depth, w ++ v, r, by rw [List.append_assoc], hr, hh⟩

theorem haltsIn_here {point : Point} (hr : Reaches room point depth u)
    (hh : Halts limit room point depth s stop) : HaltsIn limit room u s stop := by
  refine ⟨point, depth, [], s, rfl, ?_, hh⟩
  rw [List.append_nil]
  exact hr

section Texts

theorem Passage.piece (h : Passage .argument x) : ∃ found, Piece x found := by
  rcases h with rfl | ⟨n, hn⟩
  · exact ⟨[], piece_nil⟩
  · exact ⟨[n], hn.piece⟩

theorem Passage.plain (h : Passage .outside x) : ∃ found, Plain false x found := by
  rcases h with rfl | ⟨n, hn⟩
  · exact ⟨[], plain_nil⟩
  · exact ⟨[n], hn.outside⟩

theorem passage_plain (h : Spells opensDirective false x t) : Passage .outside x := by
  by_cases hx : x = []
  · exact .inl hx
  · exact .inr ⟨_, .plain hx h⟩

theorem passage_argument (h : Spells endsArgument false x t)
    (ha : argumentText x left = .ok found) : Passage .argument x := by
  by_cases hx : x = []
  · exact .inl hx
  · obtain ⟨n, -, hn⟩ := chunk_of_argumentText hx h ha
    exact .inr ⟨n, hn false⟩

theorem Reference.argumentText_long (h : Reference w k i) (hk : maxReferenceDigits < k)
    (left : Nat) : argumentText w left = .error .longReference := by
  unfold argumentText
  rw [if_neg h.ne_nil, h.index, if_pos hk]

theorem reference_of_long (h : referenceIndex? w = some none) :
    ∃ k i, Reference w k i ∧ maxReferenceDigits < k := by
  obtain ⟨k, i, hr⟩ := reference_of_index h
  rw [hr.index] at h
  refine ⟨k, i, hr, ?_⟩
  by_cases hk : maxReferenceDigits < k
  · exact hk
  · rw [if_neg hk] at h
    cases h

theorem argumentText_error (h : argumentText w left = .error stop) :
    (w = ['_', '*'] ∧ stop = .malformed .unsupportedReference left) ∨
    (stop = .longReference ∧ ∃ k i, Reference w k i ∧ maxReferenceDigits < k) := by
  unfold argumentText at h
  by_cases hw : w = []
  · rw [if_pos hw] at h
    cases h
  · rw [if_neg hw] at h
    rcases hi : referenceIndex? w with _ | _ | i <;> simp only [hi] at h
    · by_cases hu : isUnsupported w = true
      · rw [if_pos hu] at h
        cases h
        exact .inl ⟨by simpa [isUnsupported] using hu, rfl⟩
      · rw [if_neg hu] at h
        cases h
    · cases h
      exact .inr ⟨rfl, reference_of_long hi⟩
    · cases h

theorem argumentText_ok (hk : ∀ k i, Reference w k i → k ≤ maxReferenceDigits)
    (hs : w ≠ ['_', '*']) (left : Nat) : ∃ found, argumentText w left = .ok found := by
  cases ha : argumentText w left with
  | ok found => exact ⟨found, rfl⟩
  | error stop =>
    rcases argumentText_error ha with ⟨hw, -⟩ | ⟨-, k, i, hr, hlong⟩
    · exact absurd hw hs
    · exact absurd (hk k i hr) (Nat.not_le.2 hlong)

end Texts

section Forwards

def Place.Stops (nested : Reader) (s : List Char) (stop : Stop) : Place → Prop
  | .outside => items nested s = .error stop
  | .argument => ∀ parts, arguments nested s parts = .error stop

def Point.Stops (limit : Int) (room depth : Nat) (s : List Char) (stop : Stop) : Point → Prop
  | .run place => place.Stops (directive limit (room - depth)) s stop
  | .method => directive limit (room - depth + 1) s = .error stop

theorem Passage.stops_inside (hx : Passage place x) (hn : nested v = .error stop) :
    place.Stops nested (x ++ '[' :: v) stop := by
  cases place with
  | outside =>
    obtain ⟨found, ⟨t, ht⟩, rfl⟩ := hx.plain
    have hc : opensDirective '[' = true := by decide
    obtain ⟨r, hcut, hr⟩ := ht.cut_stop escapes_opensDirective hc v
    rw [← hr] at hn
    unfold Place.Stops
    rw [items, hcut]
    simp only [hn]
  | argument =>
    intro parts
    obtain ⟨found, hp⟩ := hx.piece
    obtain ⟨r, hcut, hr⟩ := hp.cut (by decide : endsArgument '[' = true) v
    rw [← hr] at hn
    rw [arguments, hcut]
    simp only [hp.nodes]
    rw [if_neg (by decide), if_neg (by decide), hn]

theorem Passage.stops_behind (hx : Passage place x) (hn : Yields nested v node w)
    (hw : place.Stops nested w stop) : place.Stops nested (x ++ '[' :: v) stop := by
  cases place with
  | outside =>
    obtain ⟨found, ⟨t, ht⟩, rfl⟩ := hx.plain
    have hc : opensDirective '[' = true := by decide
    obtain ⟨r, hcut, hr⟩ := ht.cut_stop escapes_opensDirective hc v
    rw [← hr] at hn
    obtain ⟨r', hnode, rfl⟩ := hn
    unfold Place.Stops at hw ⊢
    rw [items, hcut]
    simp only [hnode]
    rw [hw]
  | argument =>
    intro parts
    obtain ⟨found, hp⟩ := hx.piece
    obtain ⟨r, hcut, hr⟩ := hp.cut (by decide : endsArgument '[' = true) v
    rw [← hr] at hn
    obtain ⟨r', hnode, rfl⟩ := hn
    rw [arguments, hcut]
    simp only [hp.nodes]
    rw [if_neg (by decide), if_neg (by decide), hnode]
    simp only [hw _]

theorem Passage.stops_next (hx : Passage .argument x)
    (hv : arguments nested v [] = .error stop) :
    Place.argument.Stops nested (x ++ ',' :: v) stop := by
  intro parts
  obtain ⟨found, hp⟩ := hx.piece
  obtain ⟨r, hcut, hr⟩ := hp.cut (by decide : endsArgument ',' = true) v
  rw [← hr] at hv
  rw [arguments, hcut]
  simp only [hp.nodes]
  rw [if_neg (by decide), if_pos trivial, hv]

theorem Token.stops (ht : Token w m)
    (hv : arguments (directive limit inner) v [] = .error stop) :
    directive limit (inner + 1) (w ++ ',' :: v) = .error stop := by
  obtain ⟨r, hcut, hr⟩ := cutMethod_stop (ht.scan (.inl rfl) v)
  rw [← hr] at hv
  rw [directive, hcut]
  simp only [ht.method]
  rw [if_pos (.inl trivial), if_neg (by decide), hv]

theorem stops_refused (hw : Spells endsArgument false w t)
    (hv : ∀ c ∈ v.head?, endsArgument c = true)
    (ha : argumentText w (w ++ v).length = .error stop) :
    Place.argument.Stops nested (w ++ v) stop := by
  intro parts
  cases v with
  | nil =>
    rw [List.append_nil] at ha ⊢
    rw [arguments, hw.cut_end escapes_endsArgument]
    simp only [ha]
  | cons c v =>
    obtain ⟨r, hcut, -⟩ := hw.cut_stop escapes_endsArgument (hv c rfl) v
    rw [arguments, hcut]
    simp only [ha]

theorem stops_refused_method (hs : scanMethod (w ++ v) = (w, v)) (hv : Point.method.Ends v)
    (hm : method w (w ++ v).length = .error stop) :
    directive limit (inner + 1) (w ++ v) = .error stop := by
  obtain ⟨c, hc, hends⟩ := hv
  cases v with
  | nil => cases hc
  | cons d v =>
    cases hc
    obtain ⟨r, hcut, -⟩ := cutMethod_stop hs
    rw [directive, hcut]
    simp only [hm]
    rw [if_pos hends]

theorem stops_whole {point : Point} (hv : point.Ends v)
    (hw : ∀ c ∈ w, isEscapable c = false)
    (hs : Point.method.Ends v → scanMethod (w ++ v) = (w, v))
    (ha : argumentText w (w ++ v).length = .error stop)
    (hm : method w (w ++ v).length = .error stop) :
    point.Stops limit room depth (w ++ v) stop := by
  cases point with
  | run place =>
    cases place with
    | outside => exact hv.elim
    | argument =>
      have ht : Spells endsArgument false w w := spells_self escapes_endsArgument hw
      exact stops_refused ht hv ha
  | method => exact stops_refused_method (hs hv) hv hm

theorem Reference.scanMethod (h : Reference w k i) (hv : Point.method.Ends v) :
    scanMethod (w ++ v) = (w, v) := by
  obtain ⟨c, hc, hends⟩ := hv
  have hs : scanReference (w ++ v) = some (w, v) := by
    refine h.scan fun d hd => ?_
    rw [Option.mem_def.1 hc] at hd
    cases hd
    rcases hends with rfl | rfl <;> decide
  unfold Pattern.scanMethod
  rw [hs]

theorem Reference.method_long (h : Reference w k i) (hk : maxReferenceDigits < k) (left : Nat) :
    method w left = .error .longReference := by
  unfold method
  rw [h.index, if_pos hk]
  simp [h.supported]

theorem cutMethod_end (h : scanMethod s = (w, [])) : cutMethod s = (w, none) := by
  unfold cutMethod
  split <;> rename_i h' <;> rw [h] at h' <;> cases h'
  rfl

theorem Halts.stops {point : Point} (h : Halts limit room point depth s stop) :
    point.Stops limit room depth s stop := by
  cases h with
  | tooDeep hx =>
    refine hx.stops_inside ?_
    rw [Nat.sub_self, directive]
  | unclosed h =>
    unfold Point.Stops
    rw [directive, cutMethod_end h]
  | unknown h hc =>
    obtain ⟨r, hcut, hr⟩ := cutMethod_stop h
    unfold Point.Stops
    rw [directive, hcut]
    simp only
    rw [if_neg (not_or.2 hc), hr]
  | unsupported hv => exact stops_whole hv unescapable_unsupported (fun _ => rfl) rfl rfl
  | long hw hk hv =>
    exact stops_whole hv hw.unescapable hw.scanMethod (hw.argumentText_long hk _)
      (hw.method_long hk _)
  | unended h hk hs =>
    intro parts
    obtain ⟨found, ha⟩ := argumentText_ok hk hs s.length
    rw [arguments, h.cut_end escapes_endsArgument]
    simp only [ha]

/-- What stops the reader at a point stops reading as a whole. -/
theorem Reaches.stops {point : Point} (h : Reaches room point depth u) :
    ∀ s, point.Stops limit room depth s stop →
      items (directive limit room) (u ++ s) = .error stop := by
  induction h with
  | start => exact fun s hs => hs
  | @pass place depth u x w found _ hx hw ih =>
    intro s hs
    obtain ⟨w', rfl, hw'⟩ := hw.reads limit
    obtain ⟨node, -, hnode⟩ := hw' s
    have := ih _ (hx.stops_behind hnode hs)
    simpa using this
  | @opens place depth u x _ hx hd ih =>
    intro s hs
    have hn : directive limit (room - depth) s = .error stop := by
      have hroom : room - (depth + 1) + 1 = room - depth := by omega
      rw [← hroom]
      exact hs
    have := ih _ (hx.stops_inside hn)
    simpa using this
  | first _ hw ih =>
    intro s hs
    have := ih _ (hw.stops (hs []))
    simpa using this
  | next _ hx ih =>
    intro s hs
    have := ih _ (hx.stops_next (hs []))
    simpa using this

end Forwards

section Backwards

/-- How the reader of arguments comes to stop. -/
inductive ArgumentHalt (nested : Reader) (s : List Char) (stop : Stop) : Prop
  | refused (w v : List Char) (hs : s = w ++ v) (hv : ∀ c ∈ v.head?, endsArgument c = true)
      (h : argumentText w s.length = .error stop)
  | unended (t : List Char) (found : List Node) (hs : Spells endsArgument true s t)
      (h : argumentText s s.length = .ok found) (hstop : stop = .malformed .unmatchedBracket 0)
  | next (x v : List Char) (hs : s = x ++ ',' :: v) (hx : Passage .argument x)
      (h : arguments nested v [] = .error stop)
  | inside (x v : List Char) (hs : s = x ++ '[' :: v) (hx : Passage .argument x)
      (h : nested v = .error stop)
  | behind (x v w : List Char) (node : Option Node) (parts : List Node) (hs : s = x ++ '[' :: v)
      (hx : Passage .argument x) (hn : Yields nested v node w)
      (h : arguments nested w parts = .error stop)

theorem arguments_halt (h : arguments nested s parts = .error stop) :
    ArgumentHalt nested s stop := by
  rw [arguments] at h
  rcases cutText_cases escapes_endsArgument s with
    ⟨t, ht, hcut⟩ | ⟨x, t, c, r, ht, hc, hs, hcut⟩
  · rw [hcut] at h
    cases ha : argumentText s s.length with
    | error stop' =>
      simp only [ha] at h
      cases h
      exact .refused s [] (by simp) (by simp) ha
    | ok found =>
      simp only [ha] at h
      cases h
      exact .unended t found ht ha rfl
  · rw [hcut] at h
    cases ha : argumentText x s.length with
    | error stop' =>
      simp only [ha] at h
      cases h
      refine .refused x (c :: r.1) hs ?_ ha
      rintro d ⟨⟩
      exact hc
    | ok found =>
      have hx := passage_argument ht ha
      simp only [ha] at h
      simp only [endsArgument, Bool.or_eq_true, decide_eq_true_eq] at hc
      rcases hc with (rfl | rfl) | rfl
      · rw [if_neg (by decide), if_neg (by decide)] at h
        split at h
        · rename_i hn
          cases h
          exact .inside x r.1 hs hx hn
        · rename_i node r' hn
          split at h
          · rename_i hargs
            cases h
            exact .behind x r.1 r'.1 node _ hs hx ⟨r', hn, rfl⟩ hargs
          · cases h
      · rw [if_pos rfl] at h
        cases h
      · rw [if_neg (by decide), if_pos rfl] at h
        split at h
        · rename_i hargs
          cases h
          exact .next x r.1 hs hx hargs
        · cases h

inductive ItemHalt (nested : Reader) (s : List Char) (stop : Stop) : Prop
  | inside (x v : List Char) (hs : s = x ++ '[' :: v) (hx : Passage .outside x)
      (h : nested v = .error stop)
  | behind (x v w : List Char) (node : Option Node) (hs : s = x ++ '[' :: v)
      (hx : Passage .outside x) (hn : Yields nested v node w) (h : items nested w = .error stop)

theorem items_halt (h : items nested s = .error stop) : ItemHalt nested s stop := by
  rw [items] at h
  rcases cutText_cases escapes_opensDirective s with
    ⟨t, -, hcut⟩ | ⟨x, t, c, r, ht, hc, hs, hcut⟩
  · simp only [hcut] at h
    cases h
  · simp only [hcut] at h
    obtain rfl : c = '[' := by simpa [opensDirective] using hc
    have hx := passage_plain ht
    split at h
    · rename_i hn
      cases h
      exact .inside x r.1 hs hx hn
    · rename_i node r' hn
      split at h
      · rename_i hitems
        cases h
        exact .behind x r.1 r'.1 node hs hx ⟨r', hn, rfl⟩ hitems
      · cases h

inductive DirectiveHalt (limit : Int) (inner : Nat) (s : List Char) (stop : Stop) : Prop
  | unclosed (h : scanMethod s = (s, []))
      (hstop : stop = .malformed .unmatchedBracket (s.length + 1))
  | unknown (w v : List Char) (c : Char) (hs : s = w ++ c :: v)
      (h : scanMethod s = (w, c :: v)) (hc : c ≠ ',' ∧ c ≠ ']')
      (hstop : stop = .malformed .unknownContext (v.length + 1))
  | refused (w v : List Char) (hs : s = w ++ v) (hv : Point.method.Ends v)
      (h : method w s.length = .error stop)
  | arguments (w v : List Char) (m : Method) (hs : s = w ++ ',' :: v) (hw : Token w m)
      (h : Pattern.arguments (directive limit inner) v [] = .error stop)

theorem directive_halt (h : directive limit (inner + 1) s = .error stop) :
    DirectiveHalt limit inner s stop := by
  rw [directive] at h
  have happ := scanMethod_append s
  rcases hscan : scanMethod s with ⟨w, _ | ⟨c, v⟩⟩
  · obtain rfl : w = s := by simpa [hscan] using happ
    rw [cutMethod_end hscan] at h
    cases h
    exact .unclosed hscan rfl
  · obtain ⟨r, hcut, rfl⟩ := cutMethod_stop hscan
    rw [hscan] at happ
    simp only [hcut] at h
    by_cases hc : c = ',' ∨ c = ']'
    · rw [if_pos hc] at h
      cases hm : method w s.length with
      | error stop' =>
        simp only [hm] at h
        cases h
        exact .refused w (c :: r.1) happ.symm ⟨c, rfl, hc⟩ hm
      | ok m =>
        have ht := token_of_method hscan hm
        simp only [hm] at h
        rcases hc with rfl | rfl
        · rw [if_neg (by decide)] at h
          split at h
          · rename_i hargs
            cases h
            exact .arguments w r.1 m happ.symm ht hargs
          · cases h
        · rw [if_pos rfl] at h
          cases h
    · rw [if_neg hc] at h
      cases h
      exact .unknown w r.1 c happ.symm hscan (not_or.1 hc) rfl

theorem method_error (h : method w left = .error stop) :
    (w = ['_', '*'] ∧ stop = .malformed .unsupportedReference left) ∨
    (stop = .longReference ∧ ∃ k i, Reference w k i ∧ maxReferenceDigits < k) := by
  unfold method at h
  by_cases hu : isUnsupported w = true
  · rw [if_pos hu] at h
    cases h
    exact .inl ⟨by simpa [isUnsupported] using hu, rfl⟩
  · rw [if_neg hu] at h
    rcases hi : referenceIndex? w with _ | _ | i <;> simp only [hi] at h <;> cases h
    exact .inr ⟨rfl, reference_of_long hi⟩

theorem halts_refused {point : Point} (hv : point.Ends v)
    (h : (w = ['_', '*'] ∧ stop = .malformed .unsupportedReference (w ++ v).length) ∨
      (stop = .longReference ∧ ∃ k i, Reference w k i ∧ maxReferenceDigits < k)) :
    Halts limit room point depth (w ++ v) stop := by
  rcases h with ⟨rfl, rfl⟩ | ⟨rfl, k, i, hw, hk⟩
  · rw [List.length_append, Nat.add_comm]
    exact .unsupported hv
  · exact .long hw hk hv

def Reader.Halts (nested : Reader) (limit : Int) (room depth : Nat) : Prop :=
  ∀ place u x s stop, Reaches room (.run place) depth u → Passage place x →
    nested s = .error stop → HaltsIn limit room u (x ++ '[' :: s) stop

theorem Reaches.behind (hr : Reaches room (.run place) depth u) (hx : Passage place x)
    (hn : nested.Sound (room - depth)) (hnode : Yields nested v node w)
    (h : ∀ u', Reaches room (.run place) depth u' → HaltsIn limit room u' w stop) :
    HaltsIn limit room u (x ++ '[' :: v) stop := by
  obtain ⟨d, hd, hder⟩ := hn v node w hnode
  rw [hd, ← List.append_assoc]
  exact (h _ (hr.pass hx hder)).behind

theorem haltsIn_arguments (hn : nested.Sound (room - depth))
    (hnested : nested.Halts limit room depth) (hr : Reaches room (.run .argument) depth u)
    (h : arguments nested s parts = .error stop) : HaltsIn limit room u s stop := by
  induction hlen : s.length using Nat.strongRecOn generalizing u s parts with
  | _ len ih =>
    cases arguments_halt h with
    | refused w v hs hv ha =>
      subst hs
      exact haltsIn_here hr (halts_refused hv (argumentText_error ha))
    | unended t found hs ha hstop =>
      subst hstop
      refine haltsIn_here hr (.unended hs ?_ ?_)
      · intro k i hk
        by_cases hlong : maxReferenceDigits < k
        · rw [hk.argumentText_long hlong] at ha
          cases ha
        · exact Nat.not_lt.1 hlong
      · rintro rfl
        cases ha
    | next x v hs hx ha =>
      subst hs
      have hlt : v.length < len := by
        rw [← hlen, List.length_append, List.length_cons]
        omega
      have := ih v.length hlt (hr.next hx) ha rfl
      simpa using this.behind
    | inside x v hs hx ha =>
      subst hs
      exact hnested _ u x v stop hr hx ha
    | behind x v w node parts' hs hx hnode ha =>
      subst hs
      have hlt : w.length < len := by
        have := hnode.length
        rw [← hlen, List.length_append, List.length_cons]
        omega
      exact hr.behind hx hn hnode fun u' hr' => ih w.length hlt hr' ha rfl

theorem haltsIn_items (hn : nested.Sound (room - depth))
    (hnested : nested.Halts limit room depth) (hr : Reaches room (.run .outside) depth u)
    (h : items nested s = .error stop) : HaltsIn limit room u s stop := by
  induction hlen : s.length using Nat.strongRecOn generalizing u s with
  | _ len ih =>
    cases items_halt h with
    | inside x v hs hx hv =>
      subst hs
      exact hnested _ u x v stop hr hx hv
    | behind x v w node hs hx hnode hw =>
      subst hs
      have hlt : w.length < len := by
        have := hnode.length
        rw [← hlen, List.length_append, List.length_cons]
        omega
      exact hr.behind hx hn hnode fun u' hr' => ih w.length hlt hr' hw rfl

theorem haltsIn_directive (limit : Int) (h : depth + inner = room) :
    Reader.Halts (directive limit inner) limit room depth := by
  induction inner generalizing depth with
  | zero =>
    intro place u x s stop hr hx hs
    rw [directive] at hs
    cases hs
    -- no room is left, so all of it is taken by the directives around
    obtain rfl : depth = room := h
    exact haltsIn_here hr (.tooDeep hx)
  | succ inner ih =>
    intro place u x s stop hr hx hs
    have hopen := hr.opens hx (by omega)
    suffices hin : HaltsIn limit room (u ++ (x ++ ['['])) s stop by
      simpa using hin.behind
    cases directive_halt hs with
    | unclosed hscan hstop =>
      subst hstop
      exact haltsIn_here hopen (.unclosed hscan)
    | unknown w v c hw hscan hc hstop =>
      subst hw hstop
      exact haltsIn_here hopen (.unknown hscan hc)
    | refused w v hw hv hm =>
      subst hw
      exact haltsIn_here hopen (halts_refused hv (method_error hm))
    | arguments w v m hw ht ha =>
      subst hw
      have hroom : room - (depth + 1) = inner := by omega
      have hsound : Reader.Sound (directive limit inner) (room - (depth + 1)) := by
        rw [hroom]
        exact directive_sound limit inner
      have := haltsIn_arguments hsound (ih (by omega)) (hopen.first ht) ha
      simpa using this.behind

end Backwards

/-- Reading stops exactly where the grammar says, and with that fault. -/
theorem items_error_iff (limit : Int) (room : Nat) (s : List Char) (stop : Stop) :
    items (directive limit room) s = .error stop ↔ HaltsIn limit room [] s stop := by
  constructor
  · intro h
    exact haltsIn_items (directive_sound limit room) (haltsIn_directive limit (Nat.zero_add room))
      .start h
  · rintro ⟨point, depth, v, r, rfl, hr, hh⟩
    exact hr.stops r hh.stops

end Phrasebook.Pattern
