import Phrasebook.Proofs.Formatter.Composition

/-!
# Calls of extensions

What a formatter does beside its outcome: the extensions that it calls and the values that it gives
them, in their order. Traces are followed by one another as outcomes are, and the trace of a
formatter comes to the outcome of running it.
-/

namespace Phrasebook

/-- A call of an extension, by the values that follow the context. -/
structure Invocation where
  extension : Extension
  args : List Value

/-- What is called and noticed in an evaluation, and what it comes to. -/
structure Trace (α : Type) where
  calls : List Invocation
  notices : List Notice
  result : Except Fault α

namespace Trace

variable {α β γ : Type} {x y z : Trace α}

def outcome (t : Trace α) : Outcome α := ⟨t.notices, t.result⟩

def ofOutcome (o : Outcome α) : Trace α := ⟨[], o.notices, o.result⟩

def ok (a : α) : Trace α := ⟨[], [], .ok a⟩

def fail (f : Fault) : Trace α := ⟨[], [], .error f⟩

def call (c : Context) (f : Extension) (args : List Value) : Trace Value :=
  ⟨[⟨f, args⟩], (f c args).notices, (f c args).result⟩

def andThen (t : Trace α) (next : α → Trace β) : Trace β :=
  match t with
  | ⟨calls, notices, .ok a⟩ =>
    ⟨calls ++ (next a).calls, notices ++ (next a).notices, (next a).result⟩
  | ⟨calls, notices, .error f⟩ => ⟨calls, notices, .error f⟩

def textOf (v : Value) : Trace String := ofOutcome (.ofText v.rendered)

def text (t : Trace Value) : Trace String := t.andThen textOf

@[simp] theorem ok_andThen (a : α) (next : α → Trace β) : (ok a).andThen next = next a := rfl

@[simp] theorem fail_andThen (f : Fault) (next : α → Trace β) :
    (fail f : Trace α).andThen next = fail f := rfl

@[simp] theorem andThen_ok (t : Trace α) : t.andThen ok = t := by
  obtain ⟨calls, notices, _ | a⟩ := t <;> simp [andThen, ok]

theorem andThen_assoc (t : Trace α) (f : α → Trace β) (g : β → Trace γ) :
    (t.andThen f).andThen g = t.andThen fun a => (f a).andThen g := by
  obtain ⟨calls, notices, _ | a⟩ := t
  · rfl
  · simp only [andThen]
    rcases f a with ⟨calls', notices', _ | b⟩ <;> simp

theorem text_andThen_ok (t : Trace String) : (t.andThen fun s => ok (Value.text s)).text = t := by
  rw [text, andThen_assoc]
  exact andThen_ok t

theorem textOf_none {v : Value} (h : v.rendered = none) : textOf v = fail .longNumber := by
  rw [textOf, h]
  rfl

@[simp] theorem outcome_ok (a : α) : (ok a).outcome = .ok a := rfl

@[simp] theorem outcome_ofOutcome (o : Outcome α) : (ofOutcome o).outcome = o := rfl

theorem outcome_andThen (t : Trace α) (next : α → Trace β) :
    (t.andThen next).outcome = t.outcome.andThen fun a => (next a).outcome := by
  obtain ⟨calls, notices, _ | a⟩ := t <;> rfl

end Trace

namespace Program

variable (c : Context) (argv : List Value)

mutual

def trace : Program → Trace Value
  | text s => .ok (.text s)
  | select i => .ok (argument argv i)
  | call f args => (traceAll args).andThen (.call c f)
  | concat parts => (traceJoin parts).andThen fun s => .ok (.text s)

def traceAll : List Program → Trace (List Value)
  | [] => .ok []
  | p :: ps => (trace p).andThen fun v => (traceAll ps).andThen fun vs => .ok (v :: vs)

/-- Each part is made a text before the next one is evaluated. -/
def traceJoin : List Program → Trace String
  | [] => .ok ""
  | p :: ps => (trace p).text.andThen fun s => (traceJoin ps).andThen fun t => .ok (s ++ t)

end

mutual

theorem outcome_trace : ∀ p : Program, (trace c argv p).outcome = eval c argv p
  | .text s => by rw [trace, eval, Trace.outcome_ok]
  | .select i => by rw [trace, eval, Trace.outcome_ok]
  | .call f args => by
    rw [trace, eval, Trace.outcome_andThen, outcome_traceAll args]
    rfl
  | .concat parts => by
    rw [trace, eval, Trace.outcome_andThen, outcome_traceJoin parts]
    rfl

theorem outcome_traceAll : ∀ ps : List Program, (traceAll c argv ps).outcome = evalAll c argv ps
  | [] => by rw [traceAll, evalAll, Trace.outcome_ok]
  | p :: ps => by
    simp only [traceAll, evalAll, Trace.outcome_andThen, outcome_trace p, outcome_traceAll ps,
      Trace.outcome_ok, Outcome.bind_eq, Outcome.pure_eq]

theorem outcome_traceJoin : ∀ ps : List Program, (traceJoin c argv ps).outcome = join c argv ps
  | [] => by rw [traceJoin, join, Trace.outcome_ok]
  | p :: ps => by
    simp only [traceJoin, join, Trace.text, Trace.textOf, Trace.outcome_andThen, outcome_trace p,
      outcome_traceJoin ps, Trace.outcome_ok, Trace.outcome_ofOutcome, Outcome.bind_eq,
      Outcome.pure_eq, Outcome.andThen_assoc]

end

end Program

namespace Formatter

def trace (f : Formatter) (c : Context) (args : List Value) : Trace String :=
  (f.program.trace c (c.self :: args)).text

theorem outcome_trace (f : Formatter) (c : Context) (args : List Value) :
    (f.trace c args).outcome = f.run c args := by
  rw [trace, Trace.text, Trace.outcome_andThen, Program.outcome_trace]
  rfl

end Formatter

end Phrasebook
