import Phrasebook.Proofs.Lexicon.Memo
import Phrasebook.Proofs.Loading.Account
import Phrasebook.Proofs.Loading.Inheritance
import Phrasebook.Proofs.Loading.Localizer

/-!
# What lasts

In a step lexicons are put on the shelf and installed under their tags, handles are given out for
lexicons that are installed, and nothing else is done to the shelf and to what was given out, but
that more may be compiled of a lexicon. A property that survives this holds throughout a run, and in
the middle of every step.
-/

namespace Phrasebook

namespace Client

/-- A handle was given out: a promise is kept with it, or a callback was called with it. -/
def Gave (c : Client) (x : Handle) : Prop :=
  .kept (.handle x) ∈ c.promises ∨ ∃ e ∈ c.events, e.message = .ready x

section Gave

variable {c d : Client} {x : Handle}

theorem gave_settle {p : Nat} {q : Promise} (h : (c.settle p q).1.Gave x) :
    c.Gave x ∨ q = .kept (.handle x) := by
  unfold settle at h
  split at h
  · rcases h with h | h
    · exact (List.mem_or_eq_of_mem_set h).imp Or.inl Eq.symm
    · exact Or.inl (Or.inr h)
  · exact Or.inl h

theorem gave_call {r : Nat} {g : Given Callback} {m : Message} (h : (c.call r g m).1.Gave x) :
    c.Gave x ∨ m = .ready x := by
  cases g with
  | value kind => exact Or.inl h
  | function g =>
    rcases h with h | ⟨e, he, hm⟩
    · exact Or.inl (Or.inl h)
    · rcases List.mem_append.mp he with he | he
      · exact Or.inl (Or.inr ⟨e, he, hm⟩)
      · rw [List.mem_singleton.mp he] at hm
        exact Or.inr hm

theorem gave_deliver {r : HandleRequest} {y : Handle} (h : (c.deliver r y).1.Gave x) :
    c.Gave x ∨ x = y := by
  have hsettle : (c.settle r.promise (.kept (.handle y))).1.Gave x → c.Gave x ∨ x = y := fun h =>
    (gave_settle h).imp id fun he => (Product.handle.inj (Promise.kept.inj he)).symm
  unfold deliver at h
  generalize c.settle r.promise (.kept (.handle y)) = s at h hsettle
  rcases s with ⟨d, _ | f⟩
  · cases hr : r.onSuccess with
    | none =>
      simp only [hr] at h
      exact hsettle h
    | some g =>
      simp only [hr] at h
      rcases gave_call h with h | h
      · exact hsettle h
      · exact Or.inr (Message.ready.inj h).symm
  · exact hsettle h

theorem gave_refuse {r : HandleRequest} {f : Fault} (h : (c.refuse r f).1.Gave x) : c.Gave x := by
  have hsettle : (c.settle r.promise (.broken f)).1.Gave x → c.Gave x := fun h =>
    (gave_settle h).resolve_right nofun
  unfold refuse at h
  generalize c.settle r.promise (.broken f) = s at h hsettle
  rcases s with ⟨d, _ | f⟩
  · simp only at h
    split at h
    · exact hsettle ((gave_call h).resolve_right nofun)
    · exact hsettle h
    · exact hsettle h
  · exact hsettle h

theorem gave_hearSuccess {installed : String → Option Nat} {w : Listener}
    (h : (c.hearSuccess installed w).1.Gave x) : c.Gave x ∨ installed x.tag = some x.lexicon := by
  cases w with
  | caller request g => exact Or.inl ((gave_call h).resolve_right nofun)
  | handle r =>
    simp only [hearSuccess] at h
    split at h
    · exact Or.inl h
    · rename_i id hid
      unfold makeHandle at h
      split at h
      · rename_i y hy
        rcases gave_deliver h with h | rfl
        · exact Or.inl h
        · right
          split at hy
          · rw [← Except.ok.inj hy]
            exact hid
          · contradiction
      · exact Or.inl h

theorem gave_hearFailure {f : Fault} {w : Listener} (h : (c.hearFailure f w).1.Gave x) :
    c.Gave x := by
  cases w with
  | caller request g => exact (gave_call h).resolve_right nofun
  | handle r => exact gave_refuse h

theorem gave_reportInstalled {place : Nat} {r : Reporter}
    (h : (c.reportInstalled place r).1.Gave x) : c.Gave x := by
  cases r with
  | caller request g => exact (gave_call h).resolve_right nofun
  | promise id tag =>
    have hoffer := (gave_settle h).resolve_right nofun
    unfold offer at hoffer
    split at hoffer <;> exact hoffer

theorem gave_reportFailed {f : Fault} {r : Reporter} (h : (c.reportFailed f r).1.Gave x) :
    c.Gave x := by
  cases r with
  | caller request g => exact (gave_call h).resolve_right nofun
  | promise id tag => exact (gave_settle h).resolve_right nofun

theorem Numbers.gave (h : c.Numbers d) (hx : d.Gave x) : c.Gave x := by
  rcases hx with hx | hx
  · obtain ⟨n, hn⟩ := h.promises
    rw [hn] at hx
    rcases List.mem_append.mp hx with hx | hx
    · exact Or.inl hx
    · exact absurd (List.eq_of_mem_replicate hx) nofun
  · exact Or.inr (h.events ▸ hx)

end Gave

end Client

namespace Coordinator

def Gives (c d : Coordinator) : Prop :=
  ∀ x, d.client.Gave x → c.client.Gave x ∨ c.desk.store.get? x.tag = some x.lexicon

/-- A property of what is on the shelf and of what was given out that survives all that is done to
them: a lexicon is installed under its tag, and handles are given out for what is installed. -/
structure Lasting (P : Coordinator → Prop) : Prop where
  keeps : ∀ {c d}, c.desk.Sound → P c →
    d.desk.shelf.map Lexicon.tag = c.desk.shelf.map Lexicon.tag →
    d.desk.store.installed = c.desk.store.installed → Gives c d → P d
  shelves : ∀ {c d l}, c.desk.Sound → P c → Shelves c.desk d.desk l.tag (some l) → Gives c d → P d

section Turns

variable {c d : Coordinator} {e e' : Desk Success Failure}

theorem gives_of_gave (h : ∀ {x}, d.client.Gave x → c.client.Gave x) : Gives c d :=
  fun _ hx => Or.inl (h hx)

theorem gives_of_client (h : d.client = c.client) : Gives c d :=
  gives_of_gave fun hx => h ▸ hx

theorem gave_report {place : Nat} {r : Option Reporter} {x : Handle}
    (h : (report c place r).1.client.Gave x) : c.client.Gave x := by
  cases r with
  | none => exact h
  | some r => exact Client.gave_reportInstalled h

theorem shelves_self (hshelf : e'.shelf = e.shelf)
    (hinstalled : e'.store.installed = e.store.installed) (u : String) : Shelves e e' u none :=
  ⟨hshelf.trans (List.append_nil _).symm, hinstalled⟩

theorem shelves_failLoad (c : Coordinator) (id : Nat) (why : LoadFailure) (cause : Fault) :
    Shelves c.desk (failLoad silent c id why cause).1.desk "" none := by
  simp only [failLoad]
  by_cases hc : c.desk.store.isCurrent id
  · have hl := shelves_giveUp hc (c.loadOf id).tag cause ""
    rw [giveUp_eq hc] at hl ⊢
    exact hl
  · rw [giveUp_late hc]
    exact shelves_self rfl rfl ""

theorem shelves_finish (c : Coordinator) (id : Nat) (data : Value) (under : Option Lexicon) :
    ∃ u l, Shelves c.desk
      (finish silent c id data (overlaid (c.loadOf id).tag under)).1.desk u l ∧
        ∀ x ∈ l, x.tag = u := by
  unfold finish
  cases LexiconData.ofValue data with
  | ok entries =>
    simp only [installLoaded]
    by_cases hc : c.desk.store.isCurrent id
    · have hl := shelves_installLoaded hc (c.loadOf id).tag
        (overlaid (c.loadOf id).tag under entries)
      rw [installLoaded_eq hc] at hl ⊢
      refine ⟨_, _, hl, ?_⟩
      rintro x ⟨rfl⟩
      rfl
    · rw [installLoaded_late hc]
      exact ⟨"", none, shelves_self rfl rfl "", by simp⟩
  | error f =>
    by_cases hf : f.isShape
    · simp only [hf, if_true]
      exact ⟨"", none, shelves_failLoad c id _ _, by simp⟩
    · simp only [hf]
      exact ⟨"", none, shelves_self rfl rfl "", by simp⟩

theorem shelves_install (c : Coordinator) (l : Lexicon) (r : Option Reporter) :
    Shelves c.desk (Coordinator.install silent c l r).1.desk l.tag (some l) := by
  have hreport : ∀ (b : Coordinator) place, (report b place r).1.desk = b.desk :=
    fun b place => (report_serves place r).1
  simp only [Coordinator.install, Desk.install, Desk.shelve, Store.install]
  cases c.desk.store.pending.get? l.tag with
  | none =>
    simp only [hreport]
    exact ⟨rfl, rfl⟩
  | some id =>
    simp only [silent, hreport]
    exact ⟨rfl, rfl⟩

theorem shelves_take (c : Coordinator) (t : Turn) :
    ∃ u l, Shelves c.desk (take silent c t).1.desk u l ∧ ∀ x ∈ l, x.tag = u := by
  have hnone : ∀ {d : Coordinator}, Shelves c.desk d.desk "" none → ∃ u l,
      Shelves c.desk d.desk u l ∧ ∀ x ∈ l, x.tag = u :=
    fun h => ⟨"", none, h, nofun⟩
  have hinstall : ∀ (l : Lexicon) (r : Option Reporter), ∃ u x,
      Shelves c.desk (Coordinator.install silent c l r).1.desk u x ∧ ∀ y ∈ x, y.tag = u := by
    intro l r
    refine ⟨l.tag, some l, shelves_install c l r, ?_⟩
    rintro x ⟨rfl⟩
    rfl
  cases t with
  | success s =>
    cases s with
    | listener l => exact hnone (shelves_self rfl rfl "")
    | extendLoad id base data =>
      simp only [take, succeed]
      cases c.desk.lexicon? base with
      | none => exact hnone (shelves_self rfl rfl "")
      | some l => exact shelves_finish c id data (some l)
    | extendDefinition tag base data r =>
      simp only [take, succeed]
      cases c.desk.lexicon? base with
      | none => exact hnone (shelves_self rfl rfl "")
      | some l => exact hinstall (l.derive tag data) r
  | failure f w =>
    cases w with
    | listener l => exact hnone (shelves_self rfl rfl "")
    | abandonLoad id base =>
      exact hnone (shelves_failLoad (c.note (.baseFailed (c.loadOf id).tag base f.message)) id
        (.baseFailed base) f)
    | abandonDefinition tag base r =>
      cases r with
      | none => exact hnone (shelves_self rfl rfl "")
      | some r => exact hnone (shelves_self rfl rfl "")
  | install l r => exact hinstall l r
  | finish id data base => exact shelves_finish c id data base
  | giveUp id why cause => exact hnone (shelves_failLoad c id why cause)

theorem gives_failLoad (c : Coordinator) (id : Nat) (why : LoadFailure) (cause : Fault) :
    Gives c (failLoad silent c id why cause).1 := by
  apply gives_of_client
  simp only [failLoad]
  rcases c.desk.giveUp id (c.loadOf id).tag cause with ⟨_ | _, e⟩ <;> rfl

theorem gives_finish (c : Coordinator) (id : Nat) (data : Value) (make : LexiconData → Lexicon) :
    Gives c (finish silent c id data make).1 := by
  unfold finish
  cases LexiconData.ofValue data with
  | ok entries =>
    apply gives_of_client
    simp only [installLoaded]
    rcases c.desk.installLoaded id (c.loadOf id).tag (make entries) with ⟨_ | _, e⟩ <;> rfl
  | error f =>
    by_cases hf : f.isShape
    · simp only [hf, if_true]
      exact gives_failLoad c id _ _
    · simp only [hf]
      exact gives_of_client rfl

theorem gives_install (c : Coordinator) (l : Lexicon) (r : Option Reporter) :
    Gives c (Coordinator.install silent c l r).1 := by
  unfold Coordinator.install
  rcases c.desk.install l with ⟨place, _ | id, e⟩
  · exact gives_of_gave fun hx => gave_report (c := { c with desk := e }) hx
  · exact gives_of_gave fun hx => gave_report (c := { c with desk := e }) hx

theorem gives_take (c : Coordinator) (t : Turn) : Gives c (take silent c t).1 := by
  cases t with
  | success s =>
    cases s with
    | listener l => exact fun x hx => Client.gave_hearSuccess hx
    | extendLoad id base data =>
      simp only [take, succeed]
      cases c.desk.lexicon? base with
      | none => exact gives_of_client rfl
      | some l => exact gives_finish c id data _
    | extendDefinition tag base data r =>
      simp only [take, succeed]
      cases c.desk.lexicon? base with
      | none => exact gives_of_client rfl
      | some l => exact gives_install c _ r
  | failure f w =>
    cases w with
    | listener l => exact gives_of_gave Client.gave_hearFailure
    | abandonLoad id base => exact gives_failLoad (c.note _) id _ _
    | abandonDefinition tag base r =>
      cases r with
      | none => exact gives_of_client rfl
      | some r => exact gives_of_gave Client.gave_reportFailed
  | install l r => exact gives_install c l r
  | finish id data base => exact gives_finish c id data _
  | giveUp id why cause => exact gives_failLoad c id why cause

end Turns

namespace Lasting

variable {P : Coordinator → Prop} {c d : Coordinator} {is : List Incident} {fs : List Fault}

theorem shelved (hP : Lasting P) (hs : c.desk.Sound) (h : P c) {u : String} {l : Option Lexicon}
    (hl : Shelves c.desk d.desk u l) (hu : ∀ x ∈ l, x.tag = u) (hg : Gives c d) : P d := by
  cases l with
  | none =>
    have hshelf : d.desk.shelf = c.desk.shelf := hl.1.trans (List.append_nil _)
    exact hP.keeps hs h (congrArg _ hshelf) hl.2 hg
  | some x =>
    obtain rfl := hu x rfl
    exact hP.shelves hs h hl hg

theorem forewarn (hP : Lasting P) (hs : c.desk.Sound) (h : P c) (id : Nat)
    (outcome : Option Fault) : P (c.forewarn id outcome) := by
  obtain ⟨n, hn⟩ := forewarn_cases c id outcome
  rw [hn]
  exact hP.keeps hs h rfl rfl (gives_of_client rfl)

theorem tells (hP : Lasting P) {owner : Option Nat} {ts : List Turn} (h : Tells owner c ts d fs is)
    (hs : c.desk.Sound) (hp : P c) :
    P d ∧ ∀ holder c₁ t raised, .turn holder c₁ t raised ∈ is → P c₁ := by
  induction h with
  | nil => exact ⟨hp, fun _ _ _ _ hm => absurd hm List.not_mem_nil⟩
  | @alone _ c t c₁ f ts d fs is hc heq rest ih =>
    obtain ⟨u, l, hshelves, hl⟩ := shelves_take c t
    have hgives := gives_take c t
    rw [heq silent] at hshelves hgives
    obtain ⟨hd, hrest⟩ := ih hc.sound (hP.shelved hs hp hshelves hl hgives)
    refine ⟨hd, fun holder c' t' raised hm => ?_⟩
    rcases List.mem_cons.mp hm with hm | hm
    · cases hm
      exact hp
    · exact hrest holder c' t' raised hm
  | @through _ c t e id outcome place r c₁ gs js c₂ f _ _ _ _ he heq inner hout rest ihin ih =>
    have hpass := inner.passes hs he heq hout
    obtain ⟨u, l, hshelves, hl⟩ := shelves_take c t
    -- what the turn installs is installed before the announcement in it is made
    have hdesk : (take silent c t).1.desk = e.desk := by
      rw [heq silent]
      exact desk_reportAfter place r (e, none)
    rw [hdesk] at hshelves
    have hpe := hP.shelved hs hp hshelves hl (gives_of_client he.client)
    obtain ⟨hp₁, hin⟩ := ihin hpass.start (hP.forewarn he.sound hpe id outcome)
    have hgives : Gives c₁ c₂ := by
      generalize gather ((e.loadOf id).unhandled outcome) gs = g at hout
      cases g with
      | none =>
        have hreport : (report c₁ place r).1 = c₂ := congrArg Prod.fst hout
        exact gives_of_gave fun hx => gave_report (hreport ▸ hx)
      | some g => exact gives_of_client (congrArg (fun s => s.1.client) hout).symm
    have hp₂ := hP.keeps hpass.finish hp₁ (congrArg (·.shelf.map Lexicon.tag) hpass.desk)
      (congrArg (·.store.installed) hpass.desk) hgives
    obtain ⟨hd, hrest⟩ := ih hpass.sound hp₂
    refine ⟨hd, fun holder c' t' raised hm => ?_⟩
    rcases List.mem_cons.mp hm with hm | hm
    · cases hm
      exact hp
    · rcases List.mem_append.mp ((List.mem_cons.mp hm).resolve_left nofun) with hm | hm
      · exact hin holder c' t' raised hm
      · exact hrest holder c' t' raised hm

theorem fired (hP : Lasting P) (hs : c.desk.Sound) (h : P c) (id : Nat) : P (c.fired id) :=
  hP.keeps hs h rfl rfl (gives_of_client rfl)

/-- What lasts holds after a step, and in the middle of it. -/
theorem course (hP : Lasting P) {deed : Deed} {s : Step} (hc : Course c deed s is)
    (hs : c.desk.Sound) (h : P c) :
    P s.1 ∧ ∀ holder c₁ t raised, .turn holder c₁ t raised ∈ is → P c₁ := by
  have hnone : ∀ {Q : Prop} {holder c₁ t raised}, Incident.turn holder c₁ t raised ∈ [] → Q :=
    fun hm => absurd hm List.not_mem_nil
  cases hc with
  | nothing => exact ⟨h, fun _ _ _ _ => hnone⟩
  | queued hq =>
    have hp := hP.keeps (d := { c with desk := _ }) hs h (congrArg _ hq.shelf) hq.installed
      (gives_of_client rfl)
    exact ⟨hp, fun _ _ _ _ => hnone⟩
  | present _ ht => exact hP.tells ht hs h
  | turn ht => exact hP.tells ht hs h
  | never => exact ⟨h, fun _ _ _ _ => hnone⟩
  | late => exact ⟨hP.fired hs h _, fun _ _ _ _ => hnone⟩
  | @expired id seconds f d gs is _ _ hf =>
    obtain @⟨e, _, _, is, he, hl, ht⟩ := hf
    have hsound := (prepares_fired hs id).sound
    have hpe := hP.shelved hsound (hP.fired hs h id) (hl "") nofun (gives_of_client he.client)
    obtain ⟨hp, hturns⟩ := hP.tells ht (ht.announced he).start
      (hP.forewarn he.sound hpe id (some f))
    refine ⟨hp, fun holder c₁ t raised hm => ?_⟩
    exact hturns holder c₁ t raised ((List.mem_cons.mp hm).resolve_left nofun)

theorem alike (hP : Lasting P) (hs : c.desk.Sound) (h : P c) (ha : Alike c d) : P d :=
  hP.keeps hs h (congrArg _ ha.shelf) ha.installed (gives_of_gave ha.client.gave)

end Lasting

end Coordinator

namespace Localizer

open Coordinator

variable {P : Coordinator → Prop} {l : Localizer}

theorem tags_translate (l : Localizer) (x : Handle) (key : String) (args : List Value)
    (domain : Option String) :
    (l.translate x key args domain).1.desk.shelf.map Lexicon.tag =
      l.desk.shelf.map Lexicon.tag := by
  unfold translate
  cases hl : l.lexiconOf? x with
  | none => rfl
  | some y =>
    obtain ⟨hlt, rfl⟩ := List.getElem?_eq_some_iff.mp hl
    have htag := (x.compiles_translate l.registry l.desk.shelf[x.lexicon] key args domain).tag
    change (l.desk.shelf.set x.lexicon
      (x.translate l.registry l.desk.shelf[x.lexicon] key args domain).2).map Lexicon.tag = _
    rw [List.map_set, htag, ← List.getElem_map Lexicon.tag, List.set_getElem_self]
    rwa [List.length_map]

theorem sound_base (hs : l.coordinator.desk.Sound) (a : Action) : (a.base l).desk.Sound := by
  rcases alike_base l a with ⟨x, key, args, domain, rfl⟩ | halike
  · obtain ⟨hstore, hservice, hshelf, hclient⟩ := l.translate_keeps x key args domain
    have hnumbers : l.coordinator.client.Numbers (l.translate x key args domain).1.client :=
      hclient.symm ▸ Client.Numbers.refl l.client
    exact (prepares_of_store (o := .call) (N := fun _ => False) hs hstore hservice hshelf hnumbers
      nofun nofun).sound
  · exact halike.sound hs

theorem lasting_base (hP : Lasting P) (hs : l.coordinator.desk.Sound) (h : P l.coordinator)
    (a : Action) : P (a.base l) := by
  rcases alike_base l a with ⟨x, key, args, domain, rfl⟩ | halike
  · obtain ⟨hstore, -, -, hclient⟩ := l.translate_keeps x key args domain
    exact hP.keeps hs h (l.tags_translate x key args domain) (congrArg Store.installed hstore)
      (gives_of_client hclient)
  · exact hP.alike hs h halike

theorem lasting_act (hP : Lasting P) (hs : l.coordinator.Sound) (h : P l.coordinator)
    (a : Action) : P (l.act a).1.coordinator := by
  have hsb := sound_base hs.desk a
  obtain ⟨is, hc⟩ := course_perform hsb (a.deed l)
  rw [← act_eq hs.desk] at hc
  exact (hP.course hc hsb (lasting_base hP hs.desk h a)).1

theorem lasting_run (hP : Lasting P) (hs : l.coordinator.Sound) (h : P l.coordinator)
    (as : List Action) : P (run l as).coordinator := by
  induction as generalizing l with
  | nil => exact h
  | cons a as ih => exact ih (Driver.sound_step (d := driver) hs a) (lasting_act hP hs h a)

theorem lasting_create (hP : Lasting P) {s : Setup} {config : Config}
    (hstart : ∀ registry languages, P (empty s config registry languages).coordinator)
    (h : create s config = .ok l) : P l.coordinator := by
  refine (kept_create (fun {c} tag data hs hp => ?_) hstart h).2
  obtain ⟨is, hc⟩ := course_perform hs.desk (.definition tag data none none none)
  rw [define_eq]
  exact (hP.course hc hs.desk hp).1

end Localizer

end Phrasebook
