import Mathlib.Data.Fintype.EquivFin
import Mathlib.Logic.Relation
import Phrasebook.Proofs.Loading.Deed
import Phrasebook.Proofs.Loading.Receipt

/-!
# No load is orphaned

A load that has no errand out any more waits for the current load of its base, where its
continuation is queued for success and for failure. Whatever settles that load passes the result on.
Two faults break the chain, and both leave the step that should have settled the load: data with an
integer for a key that is too long to be written, and a fault of the loader that has no text.
-/

namespace Phrasebook

namespace Coordinator

/-- A load waits for the current load of its base, which is to continue it however it ends. -/
structure Waits (c : Coordinator) (id : Nat) (base : String) (data : Value) (j : Nat) : Prop where
  current : c.desk.store.isCurrent j
  tag : (c.loadOf j).tag = base
  other : base ≠ (c.loadOf id).tag
  waiter : loadWaiter id base data ∈ (c.loadOf j).waiters
  onSuccess : .extendLoad id base data ∈ (c.loadOf j).onSuccess
  onError : .abandonLoad id base ∈ (c.loadOf j).onError

/-- What keeps a load from being settled: its base is there but its data cannot be read and the
message about them cannot be written, or its loader raised a fault that cannot be written. -/
inductive Stranded (s : Coordinator) (as : List Action) (id : Nat) : Prop where
  | unreadable {r} (hr : Received s as id r)
      (hb : ∀ b ∈ r.base, (run s as).desk.store.contains b)
      (hd : LexiconData.ofValue r.data = .error .longNumber)
  | wordless {f g} (hr : Heard s as id (.error f)) (hf : f.text = .error g)

section Waits

variable {c d : Coordinator} {id j : Nat} {base : String} {data : Value}

theorem waits_of_waiter (hc : c.desk.store.isCurrent j) (ht : (c.loadOf j).tag = base)
    (ho : base ≠ (c.loadOf id).tag) (hw : loadWaiter id base data ∈ (c.loadOf j).waiters) :
    Waits c id base data j where
  current := hc
  tag := ht
  other := ho
  waiter := hw
  onSuccess := (c.loadOf j).onSuccess_eq ▸ List.mem_map.mpr ⟨_, hw, rfl⟩
  onError := (c.loadOf j).onError_eq ▸ List.mem_filterMap.mpr ⟨_, hw, rfl⟩

theorem Waits.later (h : Waits c id base data j) (hl : Later c d)
    (hc : d.desk.store.isCurrent j) : Waits d id base data j := by
  have hj := hl.desk.load j
  have hid := hl.desk.load id
  refine waits_of_waiter hc (hj.tag.trans h.tag) ?_ ?_
  · rw [loadOf_eq, hid.tag]
    exact h.other
  · rw [loadOf_eq, hj.waiters]
    exact h.waiter

theorem Waits.prepares {N : Ticket → Prop} {o : Occasion} (h : Waits c id base data j)
    (hp : Prepares N o c d) (hid : id < c.desk.store.loads.length) : Waits d id base data j := by
  have hj := (Store.isCurrent_iff.mp h.current).1
  obtain ⟨new, hnew, -⟩ := hp.waiters j
  refine waits_of_waiter ((hp.current hj).mpr h.current) ((hp.tag hj).trans h.tag) ?_ ?_
  · rw [hp.tag hid]
    exact h.other
  · rw [hnew]
    exact List.mem_append_left _ h.waiter

end Waits

section Freed

variable {c : Coordinator} {id : Nat}

theorem Turn.load?_of_definition? {t : Turn} {x : Lexicon × Option Reporter}
    (h : t.definition? c = some x) : t.load? = none := by
  cases t with
  | success s => cases s <;> first | rfl | contradiction
  | install => rfl
  | _ => contradiction

theorem freed {t : Turn} (hs : c.desk.Sound) (ht : t.load? = some id)
    (hc : (take announce c t).1.desk.store.isCurrent id) : t.Unreadable ∨ t.Baseless c := by
  suffices h : ∀ {act : Announce → Step}, Taken c t act →
      (act announce).1.desk.store.isCurrent id → t.Unreadable ∨ t.Baseless c from h (taken hs t) hc
  intro act h hc
  cases h with
  | aside h =>
    obtain ⟨n, hn⟩ := h.desk
    rw [hn] at hc
    exact h.load id ht hc
  | @ends d j outcome hj h =>
    obtain rfl := Option.some.inj (hj.symm.trans ht)
    obtain ⟨-, hl⟩ := announce_keeps j outcome h.sound
    exact absurd (hl.desk.isCurrent hc) h.settles.not_current
  | puts hdef _ => exact absurd ((Turn.load?_of_definition? hdef).symm.trans ht) nofun
  | installs hdef _ => exact absurd ((Turn.load?_of_definition? hdef).symm.trans ht) nofun

theorem not_current_giveUp (hs : c.desk.Sound) (why : LoadFailure) (cause : Fault) :
    ¬ (take announce c (.giveUp id why cause)).1.desk.store.isCurrent id := by
  intro hc
  rcases freed hs rfl hc with hd | hd
  · exact hd.elim
  · exact hd.elim

theorem Desk.Sound.lexicon?_ne_none {d : Desk Success Failure} (h : d.Sound) {t : String}
    (ht : d.store.contains t) : d.lexicon? t ≠ none := by
  have := h.lexicon? ht
  intro hn
  rw [hn] at this
  contradiction

theorem freed_of_told {c₀ d : Coordinator} {base : String} {data : Value} {k : Ticket}
    {outcome : Option Fault} {fs : List Fault}
    (ha : outcome = none → c₀.desk.store.contains base)
    (h : Told k (loadWaiter id base data) outcome c₀ d fs) (hc : d.desk.store.isCurrent id) :
    d.desk.store.contains base ∧ LexiconData.ofValue data = .error .longNumber := by
  cases outcome with
  | none =>
    obtain ⟨c₁, h₁⟩ := h.turn _ rfl
    have hb := h₁.before.desk.contains (ha rfl)
    obtain ⟨-, hl⟩ := take_keeps h₁.sound (.success (.extendLoad id base data))
    rcases freed h₁.sound rfl (h₁.after.desk.isCurrent hc) with hd | hd
    · exact ⟨h₁.after.desk.contains (hl.desk.contains hb), hd⟩
    · exact absurd hd (Desk.Sound.lexicon?_ne_none h₁.sound hb)
  | some f =>
    obtain ⟨c₁, h₁⟩ := h.turn _ rfl
    rcases freed h₁.sound rfl (h₁.after.desk.isCurrent hc) with hd | hd
    · exact hd.elim
    · exact hd.elim

/-- A load that the loader has answered for is settled, or waits for its base, unless the answer
cannot be read or written. -/
theorem delivered (hs : c.desk.Sound) (hout : (c.loadOf id).fetch = .outstanding)
    (result : Except Fault Resource)
    (hc : (c.deliver id (delivery result)).1.desk.store.isCurrent id) :
    (∃ r, result = .ok r ∧
      ((∃ base j, r.base = some base ∧
        Waits (c.deliver id (delivery result)).1 id base r.data j) ∨
      (∀ b ∈ r.base, (c.deliver id (delivery result)).1.desk.store.contains b) ∧
        LexiconData.ofValue r.data = .error .longNumber)) ∨
    ∃ f g, result = .error f ∧ f.text = .error g := by
  have hp := prepares_answered hs id
  have hid := lt_of_outstanding hout
  have hdeed := concludes c id (delivery result)
  rw [deliver_eq hs hout] at hc ⊢
  generalize hx : delivery result = x at hdeed hc ⊢
  generalize Deed.arrival c id x = deed at hdeed hc ⊢
  cases hdeed with
  | fault => exact absurd hc (not_current_giveUp hp.sound _ _)
  | wordless hf => exact .inr ⟨_, _, delivery_eq_fault.mp hx, hf⟩
  | other => exact absurd hx delivery_ne_other
  | finish =>
    rcases freed hp.sound rfl hc with hd | hd
    · exact .inl ⟨_, delivery_eq_resource.mp hx, Or.inr ⟨nofun, hd⟩⟩
    · exact hd.elim
  | ownBase => exact absurd hc (not_current_giveUp hp.sound _ _)
  | @base data base hb =>
    refine .inl ⟨_, delivery_eq_resource.mp hx, ?_⟩
    rcases ensure_cases hp.sound base (loadWaiter id base data) with
      ⟨ht, heq⟩ | ⟨j, d, heq, hq⟩
    · rw [perform, heq] at hc ⊢
      obtain ⟨-, hl⟩ := take_keeps hp.sound (.success (.extendLoad id base data))
      rcases freed hp.sound rfl hc with hd | hd
      · refine Or.inr ⟨?_, hd⟩
        rintro b ⟨rfl⟩
        exact hl.desk.contains ht
      · exact absurd hd (Desk.Sound.lexicon?_ne_none hp.sound ht)
    · rw [perform, heq]
      refine Or.inl ⟨base, j, rfl, waits_of_waiter hq.current hq.tag ?_ ?_⟩
      · rw [loadOf_eq, hq.tag_eq hp.sound.store (Nat.lt_of_lt_of_le hid hp.length),
          ← loadOf_eq, hp.tag hid]
        exact hb
      · rw [loadOf_eq, hq.waiters]
        exact List.mem_append_right _ (List.mem_singleton.mpr rfl)


end Freed

def Cared (s : Coordinator) (as : List Action) (id : Nat) : Prop :=
  ((run s as).loadOf id).fetch = .outstanding ∨
  (∃ base data j, Received s as id ⟨data, some base⟩ ∧ Waits (run s as) id base data j) ∨
  Stranded s as id

section Run

variable {s : Coordinator} {as : List Action} {id : Nat}

theorem run_snoc (s : Coordinator) (as : List Action) (a : Action) :
    run s (as ++ [a]) = ((run s as).act a).1 :=
  List.foldl_append

theorem Stranded.snoc (hs : (run s as).Sound) (h : Stranded s as id) (a : Action) :
    Stranded s (as ++ [a]) id := by
  cases h with
  | unreadable hr hb hd =>
    refine .unreadable (hr.snoc a) (fun b hb' => ?_) hd
    rw [run_cons]
    exact contains_run hs (hb b hb') [a]
  | wordless hr hf => exact .wordless (hr.snoc a) hf

theorem sole_of_waiter {c : Coordinator} (hs : c.Sound) {k : Ticket} (hk : ¬ k.Issued c.client)
    {j : Nat} {w : Waiter Success Failure} (hw : w ∈ (c.loadOf j).waiters) : Sole c k j w := by
  have hold : ∀ i, ∀ x ∈ (c.loadOf i).waiters, ¬ x.Holds k :=
    fun i x hx hh => hk (hs.issued i x hx k hh)
  obtain ⟨pre, post, he⟩ := List.append_of_mem hw
  refine ⟨⟨pre, post, he, ?_⟩, fun i _ => hold i⟩
  intro x hx
  refine hold j x ?_
  rw [he]
  rcases List.mem_append.mp hx with hx | hx
  · exact List.mem_append_left _ hx
  · exact List.mem_append_right _ (List.mem_cons_of_mem _ hx)

/-- A load that waits for its base goes on waiting, or the step that settles the base settles it. -/
theorem waits_step {base : String} {data : Value} {j : Nat} (hs : (run s as).Sound)
    (hid : id < (run s as).desk.store.loads.length) (hr : Received s as id ⟨data, some base⟩)
    (hw : Waits (run s as) id base data j) (a : Action)
     (hc : (run s (as ++ [a])).desk.store.isCurrent id) : Cared s (as ++ [a]) id := by
  obtain ⟨N, hm, -⟩ := move_act hs.desk a
  have hk : ¬ (Ticket.request ((run s as).act a).1.client.requests).Issued
      ((run s as).act a).1.client := Nat.lt_irrefl _
  obtain ⟨q, hq, hlq, -⟩ := hm.prepares hs
  have hkq := fun hh => hk (hlq.client.issued.mpr hh)
  have hkN := fun hh => hkq (hq.issued _ hh)
  have hkc := fun hh => hkq (hq.client.issued hh)
  obtain ⟨p, hp, hl, hj⟩ := hm.fate hkN (sole_of_waiter hs hkc hw.waiter)
  rw [run_snoc] at hc
  have hwp := hw.prepares hp hid
  cases hj with
  | still hcur =>
    refine Or.inr (Or.inl ⟨base, data, j, hr.snoc a, ?_⟩)
    rw [run_snoc]
    exact hwp.later hl (hcur.mp hwp.current)
  | @settled outcome c₀ _ _ _ _ _ _ _ arrived told =>
    rw [hwp.tag] at arrived
    obtain ⟨hb, hd⟩ := freed_of_told arrived told hc
    refine Or.inr (Or.inr (.unreadable (hr.snoc a) ?_ hd))
    rintro b ⟨rfl⟩
    rw [run_snoc]
    exact hb

theorem delivered_step {result : Except Fault Resource} (hs : (run s as).Sound)
    (hout : ((run s as).loadOf id).fetch = .outstanding)
    (hc : (run s (as ++ [.deliver id result])).desk.store.isCurrent id) :
    Cared s (as ++ [.deliver id result]) id := by
  have heq : run s (as ++ [.deliver id result]) =
      ((run s as).deliver id (delivery result)).1 := by
    rw [run_snoc, act, if_pos hout]
  rw [heq] at hc
  rcases delivered hs.desk hout result hc with ⟨r, rfl, h⟩ | ⟨f, g, rfl, hf⟩
  · have hr : Received s (as ++ [.deliver id (.ok r)]) id r := ⟨as, [], rfl, hout⟩
    obtain ⟨data, base⟩ := r
    rcases h with ⟨b, j, rfl, hw⟩ | hd
    · refine Or.inr (Or.inl ⟨b, data, j, hr, ?_⟩)
      rw [heq]
      exact hw
    · obtain ⟨hb, hd⟩ := hd
      exact Or.inr (Or.inr (.unreadable hr (heq ▸ hb) hd))
  · exact Or.inr (Or.inr (.wordless ⟨as, [], rfl, hout⟩ hf))

theorem cared_step (hs : (run s as).Sound) (hl : s.desk.service.hasLoader)
    (hservice : (run s as).desk.service = s.desk.service)
    (h : ∀ id, (run s as).desk.store.isCurrent id → Cared s as id) (a : Action)
    (hc : (run s (as ++ [a])).desk.store.isCurrent id) : Cared s (as ++ [a]) id := by
  obtain ⟨N, hm, -⟩ := move_act hs.desk a
  obtain ⟨p, hp, hlater, -⟩ := hm.prepares hs
  have hcp : p.desk.store.isCurrent id := by
    rw [run_snoc] at hc
    exact hlater.desk.isCurrent hc
  have hfetch : ((run s (as ++ [a])).loadOf id).fetch = (p.loadOf id).fetch := by
    rw [run_snoc]
    exact (hlater.desk.load id).fetch
  by_cases hid : id < (run s as).desk.store.loads.length
  · rcases h id ((hp.current hid).mp hcp) with hout | ⟨base, data, j, hr, hw⟩ | hstranded
    · by_cases ho : a.occasion = .answer id
      · obtain ⟨result, rfl⟩ := Action.eq_deliver ho
        exact delivered_step hs hout hc
      · exact Or.inl (hfetch.trans ((hp.fetch hid ho).trans hout))
    · exact waits_step hs hid hr hw a hc
    · exact Or.inr (Or.inr (hstranded.snoc hs a))
  · have hlt := (Store.isCurrent_iff.mp hcp).1
    exact Or.inl (hfetch.trans (hp.started (Nat.le_of_not_lt hid) hlt (hservice ▸ hl)))

theorem cared_run (hs : s.Sound) (hl : s.desk.service.hasLoader)
    (hnone : ∀ id, ¬ s.desk.store.isCurrent id) (as : List Action) :
    ∀ id, (run s as).desk.store.isCurrent id → Cared s as id := by
  have hfrom : ∀ bs as, (∀ id, (run s as).desk.store.isCurrent id → Cared s as id) →
      ∀ id, (run s (as ++ bs)).desk.store.isCurrent id → Cared s (as ++ bs) id := by
    intro bs
    induction bs with
    | nil =>
      intro as h
      rwa [List.append_nil]
    | cons a bs ih =>
      intro as h
      have hrun := Driver.sound_run (d := driver) hs as
      have hservice := Driver.service_run (d := driver) hs as
      have hnext := ih (as ++ [a]) fun id hc => cared_step hrun hl hservice h a hc
      rwa [List.append_assoc] at hnext
  exact hfrom as [] fun id hc => absurd hc (hnone id)

theorem Stranded.idle (hs : s.Sound) (h : Stranded s as id) :
    ((run s as).loadOf id).fetch ≠ .outstanding ∧
    ∀ {base data j}, Received s as id ⟨data, some base⟩ → ¬ Waits (run s as) id base data j := by
  have hrun : (run s as).Sound := Driver.sound_run (d := driver) hs as
  cases h with
  | unreadable hr hb _ =>
    refine ⟨(hr.ended hs).2, fun {base data j} hr' hw => ?_⟩
    obtain rfl := Except.ok.inj (hr.unique hs hr')
    -- what is there is not pending
    have habsent := hrun.desk.store.apart (hb base rfl)
    have hpending := (Store.isCurrent_iff.mp hw.current).2
    rw [← loadOf_eq, hw.tag, habsent] at hpending
    contradiction
  | wordless hr _ => exact ⟨(hr.ended hs).2, fun hr' _ => nomatch hr.unique hs hr'⟩

end Run

def Extends (s : Coordinator) (as : List Action) (tag base : String) : Prop :=
  ∃ id data, Received s as id ⟨data, some base⟩ ∧ ((run s as).loadOf id).tag = tag

/-- If each of finitely many things leads to another one of them, one of them leads back to
itself. -/
theorem exists_cycle {α β : Type} [Finite α] [Nonempty α] {r : β → β → Prop} (name : α → β)
    (hnext : ∀ i, ∃ j, r (name i) (name j)) : ∃ i, Relation.TransGen r (name i) (name i) := by
  by_contra hnone
  let below (i j : α) : Prop := Relation.TransGen r (name j) (name i)
  have htrans : IsTrans α below := ⟨fun _ _ _ hij hjk => hjk.trans hij⟩
  have hirrefl : Std.Irrefl below := ⟨fun i hi => hnone ⟨i, hi⟩⟩
  have hwf : WellFounded below := Finite.wellFounded_of_trans_of_irrefl below
  have hfalse : ∀ _ : α, False := by
    intro i
    induction i using hwf.induction with
    | _ i ih =>
      obtain ⟨j, hj⟩ := hnext i
      exact ih j (.single hj)
  exact hfalse (Classical.arbitrary α)

/-- Bases that do not lead back to a tag are loaded in the end: if every current load waits for a
current load of its base, there is none. -/
theorem none_current_of_acyclic {s : Coordinator} {as : List Action}
    (hacyclic : ∀ t, ¬ Relation.TransGen (Extends s as) t t)
    (h : ∀ id, (run s as).desk.store.isCurrent id → ∃ base data j,
      Received s as id ⟨data, some base⟩ ∧ Waits (run s as) id base data j) (id : Nat) :
    ¬ (run s as).desk.store.isCurrent id := by
  let c := run s as
  intro hc
  let Current := { i : Fin c.desk.store.loads.length // c.desk.store.isCurrent i }
  have hsome : Nonempty Current := ⟨⟨id, (Store.isCurrent_iff.mp hc).1⟩, hc⟩
  obtain ⟨i, hi⟩ := exists_cycle (r := Extends s as) (fun i : Current => (c.loadOf i.1).tag) <| by
    rintro ⟨i, hi⟩
    obtain ⟨base, data, j, hr, hw⟩ := h i hi
    refine ⟨⟨⟨j, (Store.isCurrent_iff.mp hw.current).1⟩, hw.current⟩, i, data, ?_, rfl⟩
    rw [hw.tag]
    exact hr
  exact hacyclic _ hi

end Coordinator

end Phrasebook
