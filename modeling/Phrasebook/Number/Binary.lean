import Phrasebook.Number.Layout

/-!
Exact decimal digits of binary floating-point numbers. A finite number is `mantissa × 2 ^ exponent`,
and all comparisons below are made between natural numbers after clearing denominators.

`shortest` gives the fewest digits that read back as the same number, and of those the nearest;
`rounded` gives a wanted count of digits, a tie going to the even last digit.
-/

namespace Phrasebook.Number

/-- The number `num / den` rounded to the nearest natural number, a half to the even one. -/
def roundHalfEven (num den : Nat) : Nat :=
  let q := num / den
  let r := num % den
  if 2 * r < den then q
  else if den < 2 * r then q + 1
  else q + q % 2

/-- The magnitude of a finite binary number and the interval of reals that round to it. -/
structure Binary where
  mantissa : Nat
  exponent : Int
  /-- The next smaller number lies at half the usual distance. -/
  narrow : Bool

inductive Magnitude
  | finite (b : Binary)
  | infinite
  | notANumber

def isNegative (x : Float) : Bool := Nat.pow 2 63 ≤ x.toBits.toNat

def magnitude (x : Float) : Magnitude :=
  let bits : Nat := x.toBits.toNat % Nat.pow 2 63
  let field : Nat := bits / Nat.pow 2 52
  let fraction : Nat := bits % Nat.pow 2 52
  if field = 2047 then if fraction = 0 then .infinite else .notANumber
  else if field = 0 then .finite ⟨fraction, -1074, false⟩
  else .finite ⟨Nat.pow 2 52 + fraction, (field : Int) - 1075, fraction = 0 ∧ 1 < field⟩

/-- `a × 2 ^ e` over a common denominator with `1`: the pair of numerator and denominator. -/
def twoPow (e : Int) : Nat × Nat := (Nat.pow 2 e.toNat, Nat.pow 2 (-e).toNat)

def tenPow (e : Int) : Nat × Nat := (Nat.pow 10 e.toNat, Nat.pow 10 (-e).toNat)

def digitCount (n : Nat) : Nat := (Nat.toDigits 10 n).length

/-- The power of ten just above a positive number: it is `0.d… × 10 ^ point`. -/
def Binary.point (b : Binary) : Int :=
  let (n, d) := twoPow b.exponent
  (digitCount (b.mantissa * n * Nat.pow 10 400 / d) : Int) - 400

structure Digits where
  coefficient : Nat
  exponent : Int

/-- The nearest of the two grid points `c × 10 ^ e` around the number that lie in its interval. -/
def Binary.onGrid (b : Binary) (e : Int) : Option Digits :=
  let (tn, td) := twoPow (b.exponent - 2)
  let (gn, gd) := tenPow e
  -- the number, the ends of its interval and a grid step, all times `td * gd`
  let value := 4 * b.mantissa * tn * gd
  let low := (4 * b.mantissa - (if b.narrow then 1 else 2)) * tn * gd
  let high := (4 * b.mantissa + 2) * tn * gd
  let step := gn * td
  let inside (c : Nat) : Bool :=
    if b.mantissa % 2 = 0 then low ≤ c * step ∧ c * step ≤ high
    else low < c * step ∧ c * step < high
  let c := value / step
  let below := value - c * step
  let above := (c + 1) * step - value
  match inside c && c ≠ 0, inside (c + 1) with
  | false, false => none
  | true, false => some ⟨c, e⟩
  | false, true => some ⟨c + 1, e⟩
  | true, true =>
    if below < above ∨ (below = above ∧ c % 2 = 0) then some ⟨c, e⟩ else some ⟨c + 1, e⟩

def Binary.exact (b : Binary) : Digits :=
  if 0 ≤ b.exponent then ⟨b.mantissa * Nat.pow 2 b.exponent.toNat, 0⟩
  else ⟨b.mantissa * Nat.pow 5 (-b.exponent).toNat, b.exponent⟩

/-- Tries grids of `n`, `n + 1`, … digits; seventeen digits always suffice. -/
def Binary.search (b : Binary) (point : Int) : Nat → Nat → Digits
  | 0, _ => b.exact
  | fuel + 1, n => (b.onGrid (point - n)).getD (b.search point fuel (n + 1))

def Binary.shortest (b : Binary) : Digits := b.search b.point 17 1

def Binary.rounded (b : Binary) (count : Nat) : Digits :=
  let e := b.point - count
  let (tn, td) := twoPow b.exponent
  let (gn, gd) := tenPow e
  ⟨roundHalfEven (b.mantissa * tn * gd) (td * gn), e⟩

/-- Significant digits without trailing zeros, and the power of ten just above the number. -/
def Digits.layOut (l : Layout) (d : Digits) : List Char :=
  let ds := Nat.toDigits 10 d.coefficient
  let trimmed := (ds.reverse.dropWhile (· = '0')).reverse
  l.write trimmed (d.exponent + ds.length)

def writeFloat (l : Layout) (digits : Binary → Digits) (x : Float) : String :=
  let sign := if isNegative x then ['-'] else []
  match magnitude x with
  | .notANumber => "nan"
  | .infinite => String.ofList (sign ++ ['i', 'n', 'f'])
  | .finite b =>
    if b.mantissa = 0 then String.ofList (sign ++ l.write ['0'] 1)
    else String.ofList (sign ++ (digits b).layOut l)

/-- The shortest text that reads back; positional below `10 ^ 16`, and never like an integer. -/
def floatText (x : Float) : String := writeFloat ⟨16, true⟩ Binary.shortest x

/-- At most `count` significant digits, positional below `10 ^ count`. -/
def generalText (count : Nat) (x : Float) : String :=
  writeFloat ⟨count, false⟩ (·.rounded count) x

end Phrasebook.Number
