import Phrasebook.Proofs.Loading.Action

/-!
# What loaders have answered

An errand ends with the first answer, so the loader is heard for a load once at most. A load that was
settled is never current again, and what was installed stays installed.
-/

namespace Phrasebook

namespace Coordinator

def Heard (s : Coordinator) (as : List Action) (id : Nat) (result : Except Fault Resource) : Prop :=
  ∃ pre post, as = pre ++ .deliver id result :: post ∧
    ((run s pre).loadOf id).fetch = .outstanding

abbrev Received (s : Coordinator) (as : List Action) (id : Nat) (r : Resource) : Prop :=
  Heard s as id (.ok r)

def Ended (id : Nat) (c : Coordinator) : Prop :=
  id < c.desk.store.loads.length ∧ (c.loadOf id).fetch ≠ .outstanding

section Steps

variable {N : Ticket → Prop} {o : Occasion} {c d p : Coordinator} {step : Step} {id j : Nat}
  {w : Waiter Success Failure}

theorem Ended.prepares (h : Ended id c) (hp : Prepares N o c p) : Ended id p := by
  obtain ⟨hid, hf⟩ := h
  refine ⟨Nat.lt_of_lt_of_le hid hp.length, ?_⟩
  by_cases ho : o = .answer id
  · exact hp.ended ho
  · rw [hp.fetch hid ho]
    exact hf

theorem Ended.later (h : Ended id c) (hl : Later c d) : Ended id d := by
  obtain ⟨hid, hf⟩ := h
  refine ⟨hl.desk.length ▸ hid, ?_⟩
  rw [loadOf_eq, (hl.desk.load id).fetch]
  exact hf

end Steps

section Run

variable {s : Coordinator} {as pre post : List Action} {id j : Nat}
  {result result' : Except Fault Resource}

theorem run_cons (s : Coordinator) (pre post : List Action) (a : Action) :
    run s (pre ++ a :: post) = run ((run s pre).act a).1 post :=
  List.foldl_append

theorem run_append (s : Coordinator) (as bs : List Action) :
    run s (as ++ bs) = run (run s as) bs :=
  List.foldl_append

theorem ended_run (hs : s.Sound) (h : Ended id s) (as : List Action) : Ended id (run s as) :=
  Driver.preserved_run (d := driver) (P := Ended id) Ended.prepares Ended.later hs h as

theorem contains_run (hs : s.Sound) {tag : String} (h : s.desk.store.contains tag)
    (as : List Action) : (run s as).desk.store.contains tag := by
  refine Driver.preserved_run (d := driver) (P := fun c => c.desk.store.contains tag) ?_ ?_ hs h as
  · intro N o c p h hp
    rw [Store.contains, hp.installed]
    exact h
  · exact fun h hl => hl.desk.contains h

theorem settled_run (hs : s.Sound) (hj : j < s.desk.store.loads.length)
    (h : ¬ s.desk.store.isCurrent j) (as : List Action) :
    ¬ (run s as).desk.store.isCurrent j := by
  have hrun := Driver.preserved_run (d := driver)
    (P := fun c => j < c.desk.store.loads.length ∧ ¬ c.desk.store.isCurrent j) ?_ ?_ hs ⟨hj, h⟩ as
  · exact hrun.2
  · rintro N o c p ⟨hj, h⟩ hp
    exact ⟨Nat.lt_of_lt_of_le hj hp.length, fun hc => h ((hp.current hj).mp hc)⟩
  · rintro c d ⟨hj, h⟩ hl
    exact ⟨hl.desk.length ▸ hj, fun hc => h (hl.desk.isCurrent hc)⟩

theorem Heard.snoc (h : Heard s as id result) (a : Action) : Heard s (as ++ [a]) id result := by
  obtain ⟨pre, post, rfl, hout⟩ := h
  exact ⟨pre, post ++ [a], by simp, hout⟩

theorem Heard.ended (hs : s.Sound) (h : Heard s as id result) : Ended id (run s as) := by
  obtain ⟨pre, post, rfl, hout⟩ := h
  have hpre : (run s pre).Sound := Driver.sound_run (d := driver) hs pre
  have hnext := Driver.sound_step (d := driver) hpre (.deliver id result)
  obtain ⟨N, hm, -⟩ := move_act hpre.desk (.deliver id result)
  obtain ⟨p, hp, hl, -⟩ := hm.prepares hpre
  have hended : Ended id p :=
    ⟨Nat.lt_of_lt_of_le (lt_of_outstanding hout) hp.length, hp.ended rfl⟩
  rw [run_cons]
  exact ended_run hnext (hended.later hl) post

theorem Heard.unique (hs : s.Sound) (h : Heard s as id result) (h' : Heard s as id result') :
    result = result' := by
  obtain ⟨pre, post, rfl, hout⟩ := h
  obtain ⟨pre', post', heq, hout'⟩ := h'
  rcases List.append_eq_append_iff.mp heq with ⟨u, rfl, hu⟩ | ⟨u, rfl, hu⟩
  · cases u with
    | nil =>
      cases hu
      rfl
    | cons a u =>
      obtain ⟨rfl, -⟩ := List.cons.inj hu
      have hr : Heard s (pre ++ .deliver id result :: u) id result := ⟨pre, u, rfl, hout⟩
      exact absurd hout' (hr.ended hs).2
  · cases u with
    | nil =>
      cases hu
      rfl
    | cons a u =>
      obtain ⟨rfl, -⟩ := List.cons.inj hu
      have hr : Heard s (pre' ++ .deliver id result' :: u) id result' := ⟨pre', u, rfl, hout'⟩
      exact absurd hout (hr.ended hs).2

end Run

end Coordinator

end Phrasebook
