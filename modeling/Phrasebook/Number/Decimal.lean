/-!
Decimal numbers that keep their exponent: `1.50` and `1.5` are different decimals of one value.
Beside the finite ones there are the infinities and two kinds of not-a-number.
-/

namespace Phrasebook

inductive Decimal where
  /-- `±coefficient × 10 ^ exponent`; zero has a sign too. -/
  | finite (negative : Bool) (coefficient : Nat) (exponent : Int)
  | infinite (negative : Bool)
  /-- `payload` is a number written behind the word, `0` if there is none. -/
  | notANumber (negative signalling : Bool) (payload : Nat)
  deriving DecidableEq, Repr

namespace Decimal

def ofInt (n : Int) : Decimal := .finite (n < 0) n.natAbs 0

def isNegative : Decimal → Bool
  | finite negative _ _ | infinite negative | notANumber negative _ _ => negative

def isZero : Decimal → Bool
  | finite _ c _ => c = 0
  | _ => false

/-- The value is exactly one. The digits are counted first, so that no large power is computed. -/
def isOne : Decimal → Bool
  | finite negative c e =>
    let n := (Nat.toDigits 10 c).length
    !negative && e ≤ 0 && e.natAbs < n && c = Nat.pow 10 (min e.natAbs n)
  | _ => false

def dropZeros : Nat → Nat → Int → Nat × Int
  | 0, c, e => (c, e)
  | fuel + 1, c, e => if c % 10 = 0 then dropZeros fuel (c / 10) (e + 1) else (c, e)

/-- The form without zeros at the end: two finite decimals have equal values if and only if their
normal forms agree, except that a zero loses its sign. -/
def normalize : Decimal → Decimal
  | finite negative c e =>
    if c = 0 then finite false 0 0
    else
      let (c, e) := dropZeros (Nat.toDigits 10 c).length c e
      finite negative c e
  | d => d

def signText (negative : Bool) : List Char := if negative then ['-'] else []

/-- Plain notation for exponents up to zero and values from `10 ^ -6` on, scientific otherwise. -/
def text : Decimal → String
  | infinite negative => String.ofList (signText negative ++ "Infinity".toList)
  | notANumber negative signalling payload =>
    let word := if signalling then "sNaN" else "NaN"
    let tail := if payload = 0 then [] else Nat.toDigits 10 payload
    String.ofList (signText negative ++ word.toList ++ tail)
  | finite negative c e =>
    let ds := Nat.toDigits 10 c
    let point := ds.length + e
    let a := point - 1
    let body :=
      if e ≤ 0 ∧ -6 ≤ a then
        if e = 0 then ds
        else if point ≤ 0 then '0' :: '.' :: List.replicate (-point).toNat '0' ++ ds
        else ds.take point.toNat ++ '.' :: ds.drop point.toNat
      else
        let fraction := ds.drop 1
        ds.take 1 ++ (if fraction.isEmpty then [] else '.' :: fraction) ++
          'E' :: (if a < 0 then '-' else '+') :: Nat.toDigits 10 a.natAbs
    String.ofList (signText negative ++ body)

end Decimal

end Phrasebook
