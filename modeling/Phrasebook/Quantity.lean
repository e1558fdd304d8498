import Phrasebook.Formatter

/-!
Quantities: a phrase in a form for one, a form for many and a form for none, chosen by the exact
value of a count. A form is a pattern in which references to the count may stand without brackets.

Forms may lead to forms. What is under way stands on a stack of calls, where every part of a form
takes room; a form that finds too little of it is taken to be without end. How much room there is
depends on the system and on what calls the library: the numbers here are those of a stack of a
thousand calls.
-/

namespace Phrasebook.Quantity

def startsWithDigit : List Char → Bool
  | [] => false
  | c :: _ => c.isDigit

/-- Puts brackets around bare references. `inside` says that the digits of a reference are being
read, and `opened` that the last character was a bracket. -/
def bracketed (inside opened : Bool) : List Char → List Char
  | [] => if inside then [']'] else []
  | c :: cs =>
    if inside && c.isDigit then c :: bracketed true false cs
    else
      let closing := if inside then [']'] else []
      if c = '_' && !opened && startsWithDigit cs then
        closing ++ '[' :: '_' :: bracketed true false cs
      else closing ++ c :: bracketed false (c = '[') cs

def template (form : String) : String := String.ofList (bracketed false false form.toList)

/-- The form for a count. Without a form for many, the form for one serves. -/
def choose (count singular plural zero : Value) : Except Fault Value :=
  match count.plain with
  | none => .error .longNumber
  | some s =>
    let n := Numeral.read s
    if n.any Decimal.isOne then .ok singular
    else if zero.holds && n.any Decimal.isZero then .ok zero
    else
      match plural with
      | .none => .ok singular
      | plural => .ok plural

/-- The calls that are open at once at most, besides those of the caller. -/
def stackSize : Nat := 986

def readingRoom : Nat := 13

mutual

/-- Gives every call of a program the context for the room that is left where the call stands. -/
def placed (contexts : Nat → Context) (room : Nat) : Program → Program
  | .text s => .text s
  | .select i => .select i
  | .call f args => .call (fun _ => f (contexts (room - 1))) (placedAll contexts (room - 2) args)
  | .concat parts => .concat (placedAll contexts (room - 3) parts)

def placedAll (contexts : Nat → Context) (room : Nat) : List Program → List Program
  | [] => []
  | p :: ps => placed contexts room p :: placedAll contexts room ps

end

/-- Writes a form; inside it the count is the first argument. -/
def writeForm (r : Registry Extension) (contexts : Nat → Context) (room : Nat) (form : String)
    (count : Value) : Outcome Value :=
  if room < readingRoom then .fail .endless
  else do
    let f ← .ofExcept (Formatter.ofPattern r (template form))
    let f := { f with program := placed contexts (room - 2) f.program }
    return .text (← f.run (contexts room) [count])

def write (r : Registry Extension) (contexts : Nat → Context) (room : Nat)
    (count singular plural zero : Value) : Outcome Value := do
  match ← .ofExcept (choose count singular plural zero) with
  | .text form => writeForm r contexts room form count
  | _ => .fail .wrongKind

def writeAll (r : Registry Extension) (contexts : Nat → Context) (room : Nat)
    (args : List Value) : Outcome Value :=
  match args with
  | [count, singular] => write r contexts room count singular .none .none
  | [count, singular, plural] => write r contexts room count singular plural .none
  | [count, singular, plural, zero] => write r contexts room count singular plural zero
  | _ => .fail .argumentCount

/-- The contexts of a handle, each for the room that is left. No more than `levels` forms can
stand inside one another. -/
def contexts (r : Registry Extension) (h : Handle) : Nat → Nat → Context
  | 0, _ => ⟨.handle h, some fun _ => .fail .endless⟩
  | levels + 1, room => ⟨.handle h, some (writeAll r (contexts r h levels) (room - 2))⟩

/-- The context of a handle under which nothing is open. Every form takes room, so there cannot
be more levels than room. -/
def context (r : Registry Extension) (h : Handle) : Context :=
  contexts r h stackSize stackSize

end Phrasebook.Quantity
