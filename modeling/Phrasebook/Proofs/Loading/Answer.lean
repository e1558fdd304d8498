import Phrasebook.Proofs.Loading.Action

/-!
# Every request is answered once

A request for a lexicon gives one callback for success, and perhaps one for failure. One of them is
called, and once: at once if the lexicon is there, otherwise in the step that settles the load.
-/

namespace Phrasebook

theorem Client.seen_call (c : Client) (request : Nat) (f : Callback) (m : Message) :
    (c.call request (.function f) m).1.seen (.request request) =
      (c.log request ++ [⟨request, f.name, m⟩], none) := by
  simp [call, seen, log]

namespace Coordinator

section Told

variable {r id : Nat} {f : Callback} {onError : Option (Given Callback)} {p c' : Coordinator}
  {fs : List Fault}

theorem log_of_told_success {err : Option (Given Callback)} {c₀ : Coordinator}
    (h : Told (.request r) (callerWaiter r (.function f) err) none c₀ c' fs)
    (hv : c₀.client.log r = []) : c'.client.log r = [⟨r, f.name, .present⟩] := by
  obtain ⟨c₁, h₁⟩ := h.turn _ rfl
  have hlog : c₁.client.log r = [] := (congrArg Prod.fst h₁.unseen).trans hv
  have hseen := h₁.seen.trans (Client.seen_call c₁.client r f .present)
  rw [hlog] at hseen
  exact congrArg Prod.fst hseen

theorem log_of_told_failure {err : Option Callback} {c₀ : Coordinator} {e : Fault}
    (h : Told (.request r) (callerWaiter r (.function f) (err.map .function)) (some e) c₀ c' fs)
    (hv : c₀.client.log r = []) :
    c'.client.log r = (err.map fun g => ⟨r, g.name, .failed e⟩).toList ∧
      (err = none → e ∈ Fault.leavesAll fs) := by
  cases err with
  | none =>
    obtain ⟨hseen, hraised⟩ := h.silent rfl
    exact ⟨(congrArg Prod.fst hseen).trans hv, fun _ => hraised e rfl⟩
  | some g =>
    obtain ⟨c₁, h₁⟩ := h.turn _ rfl
    have hlog : c₁.client.log r = [] := (congrArg Prod.fst h₁.unseen).trans hv
    have hseen := h₁.seen.trans (Client.seen_call c₁.client r g (.failed e))
    rw [hlog] at hseen
    exact ⟨congrArg Prod.fst hseen, nofun⟩

end Told

section Request

variable {c : Coordinator} {tag : String} (f : Callback) (err : Option Callback)

theorem act_ensure (c : Coordinator) (tag : String) :
    c.act (.ensure tag (.function f) (err.map .function)) =
      faultOf (c.numbered.ensure tag
        (callerWaiter c.client.requests (.function f) (err.map .function))) := by
  cases err <;> rfl

theorem unissued_next (c : Coordinator) : ¬ (Ticket.request c.client.requests).Issued c.client :=
  Nat.lt_irrefl _

theorem log_next (hs : c.Sound) : c.client.log c.client.requests = [] :=
  congrArg Prod.fst (hs.unseen (unissued_next c))

theorem answered_at_once (hs : c.Sound) (ht : c.desk.store.contains tag) (after : List Action) :
    (run (c.act (.ensure tag (.function f) (err.map .function))).1 after).client.log
      c.client.requests = [⟨c.client.requests, f.name, .present⟩] := by
  have heq : (c.act (.ensure tag (.function f) (err.map .function))).1 =
      { c with client := (c.numbered.client.call c.client.requests (.function f) .present).1 } := by
    rw [act_ensure f err]
    rcases ensure_cases (c := c.numbered) hs.desk tag
        (callerWaiter c.client.requests (.function f) (err.map .function)) with
      ⟨-, h⟩ | ⟨id, d, -, h⟩
    · rw [h]
      rfl
    · exact absurd ht h.absent
  have hs₁ : (c.act (.ensure tag (.function f) (err.map .function))).1.Sound :=
    Driver.sound_step (d := driver) hs _
  have hseen := Client.seen_call c.numbered.client c.client.requests f .present
  have hlog : c.numbered.client.log c.client.requests = [] := log_next hs
  rw [hlog] at hseen
  rw [heq] at hs₁ ⊢
  refine (congrArg Prod.fst (Driver.unheld_run (d := driver) hs₁
    (k := .request c.client.requests) (Nat.lt_succ_self c.client.requests) ?_ after).2.2).trans
    (congrArg Prod.fst hseen)
  rintro id w hw k hk rfl
  exact unissued_next c (hs.issued id w hw _ hk)

theorem asked (hs : c.Sound) (ht : ¬ c.desk.store.contains tag) :
    let c₁ := (c.act (.ensure tag (.function f) (err.map .function))).1
    ∃ id, c₁.desk.store.pending.get? tag = some id ∧ c₁.desk.store.isCurrent id ∧
      (c₁.loadOf id).tag = tag ∧ c₁.client.log c.client.requests = [] ∧
      Tracks c₁ (.request c.client.requests) id
        (callerWaiter c.client.requests (.function f) (err.map .function)) := by
  intro c₁
  have heq : c₁ = _ := congrArg Prod.fst (act_ensure f err c tag)
  rcases ensure_cases (c := c.numbered) hs.desk tag
      (callerWaiter c.client.requests (.function f) (err.map .function)) with
    ⟨h, -⟩ | ⟨id, d, h, hq⟩
  · exact absurd h ht
  · rw [h] at heq
    rw [heq]
    refine ⟨id, (hq.pending tag).trans (if_pos rfl), hq.current, hq.tag, log_next hs, ?_⟩
    refine tracks_of_queues hs c.client.numbers_accept hq trivial ?_ (unissued_next c)
      (Nat.lt_succ_self _)
    intro k hk
    rw [holds_callerWaiter hk]
    exact Nat.lt_succ_self c.client.requests

end Request

/-- A request for a lexicon, in any run: its callback for success is called at once if the lexicon
is there. Otherwise it waits for the current load of its tag, and as long as the load is current
nothing is called. When the load is settled by an installation, the callback for success is called;
when it is given up, the callback for failure is called, or the failure is raised if there is no
such callback; each of them once. -/
theorem answered_once (service : Service) (client : Client) (before after : List Action)
    (tag : String) (f : Callback) (err : Option Callback) :
    let c := run (start service client) before
    let r := c.client.requests
    let c₁ := (c.act (.ensure tag (.function f) (err.map .function))).1
    let c₂ := run c₁ after
    (c.desk.store.contains tag → c₂.client.log r = [⟨r, f.name, .present⟩]) ∧
    (¬ c.desk.store.contains tag → ∃ id,
      c₁.desk.store.pending.get? tag = some id ∧
      ((c₂.loadOf id).standing = .waiting ↔ c₂.desk.store.isCurrent id) ∧
      ((c₂.loadOf id).standing = .waiting → c₂.client.log r = []) ∧
      ((c₂.loadOf id).standing = .installed → c₂.client.log r = [⟨r, f.name, .present⟩]) ∧
      ((c₂.loadOf id).standing = .abandoned → ∃ pre a post, after = pre ++ a :: post ∧
        (run c₁ pre).desk.store.isCurrent id ∧
        ¬ ((run c₁ pre).act a).1.desk.store.isCurrent id ∧
        ∃ why cause,
          c₂.client.log r =
            (err.map fun g => ⟨r, g.name, .failed (.load tag why cause)⟩).toList ∧
          (err = none →
            .load tag why cause ∈ Fault.leavesAll ((run c₁ pre).act a).2.toList))) := by
  intro c r c₁ c₂
  have hs : c.Sound := Driver.sound_run (d := driver) (sound_start service client) before
  have hs₁ : c₁.Sound := Driver.sound_step (d := driver) hs _
  refine ⟨fun ht => answered_at_once f err hs ht after, fun ht => ?_⟩
  obtain ⟨id, hp, hc, htag, hlog, htracks⟩ := asked f err hs ht
  have hs₂ : c₂.Sound := Driver.sound_run (d := driver) hs₁ after
  have hcurrent : (c₂.loadOf id).standing = .waiting ↔ c₂.desk.store.isCurrent id := by
    have hknown := (Driver.tracks_run (d := driver) htracks after).known
    rw [hs₂.desk.store.isCurrent_iff]
    exact ⟨fun h => ⟨hknown, h⟩, fun h => h.2⟩
  refine ⟨id, hp, hcurrent, ?_⟩
  rcases Driver.tracked_run (d := driver) htracks hc after with
    ⟨hcur, hseen⟩ | ⟨pre, a, post, p, rfl, hset⟩
  · have hstand := hcurrent.mpr hcur
    exact ⟨fun _ => (congrArg Prod.fst hseen).trans hlog,
      fun h => absurd (hstand.symm.trans h) nofun, fun h => absurd (hstand.symm.trans h) nofun⟩
  · obtain ⟨outcome, c₀, h⟩ := hset.told
    have hlog₀ : c₀.client.log r = [] := (congrArg Prod.fst h.unseen).trans hlog
    have hstand : (c₂.loadOf id).standing = standingOf outcome := h.standing
    rw [hstand]
    cases outcome with
    | none =>
      refine ⟨nofun, fun _ => ?_, nofun⟩
      exact (congrArg Prod.fst hset.seen).trans (log_of_told_success h.told hlog₀)
    | some e =>
      refine ⟨nofun, nofun, fun _ => ⟨pre, a, post, rfl, hset.current, hset.gone, ?_⟩⟩
      obtain ⟨why, cause, rfl⟩ := h.error e rfl
      obtain ⟨hlog', hraised⟩ := log_of_told_failure h.told hlog₀
      have htag' : ((driver.view c₁).loadOf id).tag = tag := htag
      rw [htag'] at hlog' hraised
      exact ⟨why, cause, (congrArg Prod.fst hset.seen).trans hlog', hraised⟩

end Coordinator

end Phrasebook
