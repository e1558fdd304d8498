import Phrasebook.Value

/-!
Durations in seconds, as a caller gave them: an integer stays an integer. What a timer is set to is
a timeout, a duration that is not too short; a timer that is set to more than the system can wait
for never fires.
-/

namespace Phrasebook

inductive Duration where
  | whole (n : Int)
  | fractional (x : Float)

namespace Duration

def ofValue? : Value → Option Duration
  | .int n => some (whole n)
  | .float x => some (fractional x)
  | _ => none

def toValue : Duration → Value
  | whole n => .int n
  | fractional x => .float x

/-- The nearest floating-point number, unless the integer is too large. -/
def toFloat? : Duration → Option Float
  | fractional x => some x
  | whole n =>
    let x := Float.ofScientific n.natAbs true 0
    if x.isInf then none else some (if n < 0 then -x else x)

/-- Not a number is no duration that is too short. -/
def isTooShort : Duration → Bool
  | whole n => n ≤ 0
  | fractional x => x ≤ 0

/-- The most seconds that the system can wait for. -/
def longestWait : Nat := 9223372036

/-- The system can wait for the duration. What is not a number is over at once. -/
def elapses : Duration → Bool
  | whole n => n ≤ longestWait
  | fractional x => !decide (Float.ofNat longestWait < x)

/-- The duration divided by `10 ^ places`, rounded once, unless an integer is too large. -/
def perPowerOfTen? (places : Nat) : Duration → Option Float
  | fractional x => some (x / Float.ofNat (Nat.pow 10 places))
  | whole n =>
    let x := Float.ofScientific n.natAbs true places
    if x.isInf then none else some (if n < 0 then -x else x)

/-- At most `count` significant digits, unless an integer is too large. -/
def general? (count : Nat) (d : Duration) : Option String :=
  d.toFloat?.map (Number.generalText count)

inductive TextFault where
  | tooLarge
  | text
  | wrongKind
  deriving DecidableEq, Repr

/-- A value in a message that gives a time: six significant digits at most, but a decimal keeps all
its digits. A truth value counts as zero or one. -/
def written : Value → Except TextFault String
  | .bool b => .ok (if b then "1" else "0")
  | .decimal d => .ok (String.ofList (d.text.toList.map fun c => if c = 'E' then 'e' else c))
  | .text _ => .error .text
  | v =>
    match ofValue? v with
    | some d => ((d.general? 6).map .ok).getD (.error .tooLarge)
    | none => .error .wrongKind

end Duration

structure Timeout where
  duration : Duration
  lasting : duration.isTooShort = false

end Phrasebook
