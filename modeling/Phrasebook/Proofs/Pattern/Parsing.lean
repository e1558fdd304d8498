import Phrasebook.Proofs.Pattern.Reading

/-!
The readers against the grammar. What they return is derived by the characters that they have
taken, by induction on the room and on what is left; every phrase that is derived is read again
wherever it stands, by induction on the derivation. As a reader has one answer, so has the grammar.
-/

namespace Phrasebook.Pattern

variable {limit : Int} {room : Nat} {nested : Reader} {s u v w t rest : List Char}
  {parts found args nodes : List Node} {node : Option Node}

def Reader.Sound (nested : Reader) (room : Nat) : Prop :=
  ∀ s node rest, Yields nested s node rest →
    ∃ w, '[' :: s = w ++ rest ∧ Derives .directive room w node.toList

theorem derives_text {left : Nat} (hs : Spells endsArgument false u t)
    (h : argumentText u left = .ok found)
    (hv : ∀ b, Derives (.run .argument b) room v nodes) :
    Derives (.run .argument false) room (u ++ v) (found ++ nodes) := by
  by_cases hu : u = []
  · subst hu
    cases h
    exact hv false
  · obtain ⟨n, rfl, hc⟩ := chunk_of_argumentText hu hs h
    exact .chunk (hc _) (hv true)

theorem derives_text_alone {left : Nat} (room : Nat) (hs : Spells endsArgument false u t)
    (h : argumentText u left = .ok found) : Derives (.run .argument false) room u found := by
  have hrun : Derives (.run .argument false) room (u ++ []) (found ++ []) :=
    derives_text hs h fun _ => .done
  simpa using hrun

theorem derives_plain (hs : Spells opensDirective v.isEmpty u t)
    (hv : ∀ b, Derives (.run .outside b) room v nodes) :
    Derives (.run .outside false) room (u ++ v) (plainText u ++ nodes) := by
  unfold plainText
  by_cases hu : u = []
  · subst hu
    exact hv false
  · rw [if_neg hu, hs.decode_eq]
    exact .chunk (.plain hu hs) (hv true)

theorem Yields.length {α : Type} {read : (s : List Char) → Except Stop (α × Rest s)} {a : α}
    (h : Yields read s a rest) : rest.length < s.length := by
  obtain ⟨r, -, rfl⟩ := h
  exact r.2

/-- What the reader of arguments takes: the rest of the argument that has `parts`, the others with
their commas and the closing bracket. -/
structure Derived (room : Nat) (s : List Char) (parts args : List Node) (rest : List Char)
    (w v : List Char) (found others : List Node) : Prop where
  split : s = w ++ (v ++ ']' :: rest)
  first : Derives (.run .argument false) room w found
  further : Derives .arguments room v others
  args : args = collapse (parts ++ found) :: others

theorem Remaining.derives (h : Remaining nested v args rest)
    (ih : ∀ s args, s.length < v.length → Yields (arguments nested · []) s args rest →
      ∃ w v found others, Derived room s [] args rest w v found others) :
    ∃ w, v = w ++ ']' :: rest ∧ Derives .arguments room w args := by
  cases h with
  | close => exact ⟨[], rfl, .none⟩
  | @next s _ args h =>
    obtain ⟨w, v, found, others, hd⟩ := ih s args (Nat.lt_succ_self _) h
    obtain ⟨rfl, hw, hv, rfl⟩ := hd
    exact ⟨',' :: (w ++ v), by simp, .argument hw hv⟩

theorem arguments_sound (hn : Reader.Sound nested room)
    (h : Yields (arguments nested · parts) s args rest) :
    ∃ w v found others, Derived room s parts args rest w v found others := by
  induction hlen : s.length using Nat.strongRecOn generalizing s parts args with
  | _ len ih =>
    obtain ⟨u, t, v, found, rfl, hs, hu, hstep⟩ := arguments_step h
    rw [List.length_append] at hlen
    cases hstep with
    | ends hv =>
      obtain ⟨w, rfl, hw⟩ := hv.derives fun s args hlt h => ih s.length (by omega) h rfl
      exact ⟨u, w, found, _, rfl, derives_text_alone room hs hu, hw, rfl⟩
    | @enter v w' _ node _ hnode hv =>
      rw [List.length_cons] at hlen
      have hlt := hnode.length
      obtain ⟨d, hd, hder⟩ := hn v node w' hnode
      obtain ⟨w, v', found', others, hd'⟩ := ih w'.length (by omega) hv rfl
      obtain ⟨rfl, hw', hv', rfl⟩ := hd'
      have hw := derives_text hs hu fun _ => .nested hder hw'
      refine ⟨u ++ (d ++ w), v', found ++ (node.toList ++ found'), others, ?_, hw, hv', ?_⟩
      · rw [hd]
        simp
      · simp

theorem items_sound (hn : Reader.Sound nested room) (h : items nested s = .ok nodes) :
    Derives (.run .outside false) room s nodes := by
  induction hlen : s.length using Nat.strongRecOn generalizing s nodes with
  | _ len ih =>
    obtain ⟨u, t, v, rfl, hs, hstep⟩ := items_step h
    rw [List.length_append] at hlen
    cases hstep with
    | last =>
      have hrun : Derives (.run .outside false) room (u ++ []) (plainText u ++ []) :=
        derives_plain hs fun _ => .done
      rwa [List.append_nil (plainText u)] at hrun
    | @enter v w node nodes hnode hw =>
      rw [List.length_cons] at hlen
      have hlt := hnode.length
      obtain ⟨d, hd, hder⟩ := hn v node w hnode
      have hrun := ih w.length (by omega) hw rfl
      rw [hd] at hs ⊢
      rw [List.append_assoc]
      exact derives_plain hs fun _ => .nested hder hrun

theorem Method.node_list {seed : List Node} (h : seed ++ args ≠ []) :
    (Method.list seed).node args = some (.sequence (seed ++ args)) := by
  cases seed with
  | nil =>
    cases args with
    | nil => exact absurd rfl h
    | cons => rfl
  | cons => rfl

theorem derives_directive {m : Method} (hw : Token w m) (hv : Derives .arguments room v args) :
    Derives .directive (room + 1) ('[' :: (w ++ v ++ [']'])) (m.node args).toList := by
  cases m with
  | named name => exact .call hw hv
  | list seed =>
    by_cases hne : seed ++ args = []
    · obtain ⟨rfl, rfl⟩ := List.append_eq_nil_iff.1 hne
      cases hw
      cases hv
      exact .nothing
    · rw [Method.node_list hne]
      exact .list hw hv hne

theorem directive_sound (limit : Int) (room : Nat) : Reader.Sound (directive limit room) room := by
  induction room with
  | zero =>
    rintro s node rest ⟨r, h, -⟩
    rw [directive] at h
    cases h
  | succ room ih =>
    intro s node rest h
    obtain ⟨w, v, m, args, rfl, hw, rfl, hv⟩ := directive_step h
    obtain ⟨w', rfl, hw'⟩ := hv.derives fun s args _ h => arguments_sound ih h
    exact ⟨_, by simp, derives_directive hw hw'⟩

/-- How the readers read a phrase wherever it stands. The phrase of a run stands behind text `u`
that has been read, which is empty unless the run may follow text. -/
def Reads (limit : Int) : Form → Nat → List Char → List Node → Prop
  | .run .outside b, room, w, nodes =>
    ∀ u found, Plain w.isEmpty u found → (b = false → u = [] ∧ found = []) →
      items (directive limit room) (u ++ w) = .ok (found ++ nodes)
  | .run .argument b, room, w, nodes =>
    ∀ u found parts v others rest, Piece u found → (b = false → u = [] ∧ found = []) →
      Remaining (directive limit room) v others rest →
      Yields (arguments (directive limit room) · parts) (u ++ (w ++ v))
        (collapse (parts ++ found ++ nodes) :: others) rest
  | .directive, room, w, nodes =>
    ∃ s, w = '[' :: s ∧
      ∀ rest, ∃ node, node.toList = nodes ∧ Yields (directive limit room) (s ++ rest) node rest
  | .arguments, room, w, nodes =>
    ∀ rest, Remaining (directive limit room) (w ++ ']' :: rest) nodes rest

theorem reads_chunk {place : Place} {n : Node} (hw : Chunk place v.isEmpty w n)
    (hv : Reads limit (.run place true) room v nodes) :
    Reads limit (.run place false) room (w ++ v) (n :: nodes) := by
  cases place with
  | outside =>
    intro u found _ hu
    obtain ⟨rfl, rfl⟩ := hu rfl
    exact hv w [n] hw.outside (fun h => nomatch h)
  | argument =>
    intro u found parts v' others rest _ hu hf
    obtain ⟨rfl, rfl⟩ := hu rfl
    have := hv w [n] parts v' others rest hw.piece (fun h => nomatch h) hf
    simpa using this

theorem reads_nested {place : Place} {b : Bool} (hw : Reads limit .directive room w found)
    (hv : Reads limit (.run place false) room v nodes) :
    Reads limit (.run place b) room (w ++ v) (found ++ nodes) := by
  obtain ⟨s, rfl, hs⟩ := hw
  cases place with
  | outside =>
    intro u text hu _
    obtain ⟨node, rfl, hnode⟩ := hs v
    have hrest := hv [] [] plain_nil fun _ => ⟨rfl, rfl⟩
    have := hu.enter hnode hrest
    simpa using this
  | argument =>
    intro u text parts v' others rest hu _ hf
    obtain ⟨node, rfl, hnode⟩ := hs (v ++ v')
    have hrest := hv [] [] (parts ++ text ++ node.toList) v' others rest piece_nil
      (fun _ => ⟨rfl, rfl⟩) hf
    have := hu.enter hnode hrest
    simpa using this

theorem reads_directive {m : Method} (hw : Token w m) (hv : Reads limit .arguments room v args) :
    Reads limit .directive (room + 1) ('[' :: (w ++ v ++ [']'])) (m.node args).toList := by
  refine ⟨_, rfl, fun rest => ⟨_, rfl, ?_⟩⟩
  have := hw.ends (hv rest)
  simpa using this

/-- Every phrase of the grammar is read for what it denotes. -/
theorem Derives.reads {f : Form} (h : Derives f room w nodes) (limit : Int) :
    Reads limit f room w nodes := by
  induction h with
  | @done place _ _ =>
    cases place with
    | outside =>
      intro u found hu _
      simpa using hu.last _
    | argument =>
      intro u found parts v others rest hu _ hv
      simpa using hu.ends parts hv
  | chunk hw _ ih => exact reads_chunk hw ih
  | nested _ _ ihw ihv => exact reads_nested ihw ihv
  | none => exact fun rest => .close
  | @argument _ w v parts args _ _ ihw ihv =>
    intro rest
    have := ihw [] [] [] _ args rest piece_nil (fun _ => ⟨rfl, rfl⟩) (ihv rest)
    refine .next ?_
    simpa using this
  | @nothing room =>
    have hv : Reads limit .arguments room [] [] := fun rest => .close
    exact reads_directive .empty hv
  | list hw _ hn ih =>
    have := reads_directive hw ih
    rwa [Method.node_list hn] at this
  | call hw _ ih => exact reads_directive hw ih

end Phrasebook.Pattern
