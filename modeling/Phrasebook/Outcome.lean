import Phrasebook.Fault
import Phrasebook.Notice

/-!
Outcomes of rendering: the notices that were given, in order, and a value or a fault. A fault
ends what follows it, and keeps the notices given before it.
-/

namespace Phrasebook

structure Outcome (α : Type) where
  notices : List Notice
  result : Except Fault α

namespace Outcome

variable {α β γ : Type}

def ok (x : α) : Outcome α := ⟨[], .ok x⟩

def fail (f : Fault) : Outcome α := ⟨[], .error f⟩

def note (n : Notice) : Outcome Unit := ⟨[n], .ok ()⟩

def andThen (o : Outcome α) (next : α → Outcome β) : Outcome β :=
  match o with
  | ⟨notices, .ok x⟩ => ⟨notices ++ (next x).notices, (next x).result⟩
  | ⟨notices, .error f⟩ => ⟨notices, .error f⟩

instance : Monad Outcome where
  pure := ok
  bind := andThen

def ofExcept : Except Fault α → Outcome α
  | .ok x => ok x
  | .error f => fail f

/-- The text of a value that may hold an integer that is too long to be written. -/
def ofText : Option String → Outcome String
  | some s => ok s
  | none => fail .longNumber

@[simp] theorem ok_andThen (x : α) (next : α → Outcome β) : (ok x).andThen next = next x := by
  simp [ok, andThen]

@[simp] theorem fail_andThen (f : Fault) (next : α → Outcome β) :
    (fail f : Outcome α).andThen next = fail f := rfl

@[simp] theorem andThen_ok (o : Outcome α) : o.andThen ok = o := by
  obtain ⟨notices, _ | x⟩ := o <;> simp [andThen, ok]

theorem andThen_assoc (o : Outcome α) (f : α → Outcome β) (g : β → Outcome γ) :
    (o.andThen f).andThen g = o.andThen fun x => (f x).andThen g := by
  obtain ⟨notices, _ | x⟩ := o
  · rfl
  · simp only [andThen]
    rcases f x with ⟨more, _ | y⟩ <;> simp

theorem pure_eq (x : α) : (pure x : Outcome α) = ok x := rfl

theorem bind_eq (o : Outcome α) (next : α → Outcome β) : o >>= next = o.andThen next := rfl

end Outcome

end Phrasebook
