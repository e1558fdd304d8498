import Phrasebook.Number.Binary
import Phrasebook.Number.Decimal

/-!
Number patterns such as `#,##0.###`. A pattern has a part before and a part behind its digits, for
positive and for negative numbers; the digits say how many places are written at least and at most
and where groups are separated. Halves go to the even neighbour, and no more than
`NumberPattern.precision` significant digits are worked with.
-/

namespace Phrasebook

structure Locale.Symbols where
  decimal : Char
  group : Char
  deriving DecidableEq, Repr

structure NumberPattern where
  /-- What stands before and behind a positive number. -/
  positive : List Char × List Char
  negative : List Char × List Char
  /-- Signs for digits, with commas between groups and a point before the fraction. -/
  digits : List Char
  deriving DecidableEq, Repr

namespace NumberPattern

def isPlaceSign (c : Char) : Bool := c = '#' || c = '0' || c = ','

/-- A sign that can stand among the digits. Those that count no place end the counting. -/
def isDigitSign (c : Char) : Bool := isPlaceSign c || c.isDigit || c = '.' || c = '+'

def isLead (c : Char) : Bool :=
  !(c.isDigit || c = '#' || c = '@' || c = '.' || c = ',')

/-- What stands before the digits, the digits, and what stands behind them on their line. -/
def cut (cs : List Char) : List Char × List Char × List Char :=
  let rest := cs.dropWhile isLead
  (cs.takeWhile isLead, rest.takeWhile isDigitSign,
    (rest.dropWhile isDigitSign).takeWhile (· ≠ '\n'))

def splitPoint (digits : List Char) : List Char × List Char :=
  let behind := (digits.reverse.takeWhile (· ≠ '.')).reverse
  if behind.length = digits.length then (digits, [])
  else (digits.take (digits.length - behind.length - 1), behind)

def ofText (s : String) : NumberPattern :=
  let cs := s.toList
  let (lead, digits, trail) := cut (cs.takeWhile (· ≠ ';'))
  let negative :=
    match cs.dropWhile (· ≠ ';') with
    | [] => ('-' :: lead, trail)
    | _ :: other => ((cut other).1, (cut other).2.2)
  ⟨(lead, trail), negative, digits⟩

def precision : Nat := 28

/-- The greatest power of ten that the first digit of a number can stand for. -/
def maxMagnitude : Int := 999999

inductive Fault where
  | signal
  | outOfRange
  /-- More than `precision` digits would be written. -/
  | tooManyDigits
  deriving DecidableEq, Repr

def whole (p : NumberPattern) : List Char := (splitPoint p.digits).1

def fraction (p : NumberPattern) : List Char := (splitPoint p.digits).2

def minWhole (p : NumberPattern) : Nat := (p.whole.takeWhile isPlaceSign).count '0'

def fractionPlaces (p : NumberPattern) : List Char := p.fraction.takeWhile isPlaceSign

def minFraction (p : NumberPattern) : Nat := p.fractionPlaces.count '0'

def maxFraction (p : NumberPattern) : Nat :=
  p.fractionPlaces.count '0' + p.fractionPlaces.count '#'

/-- Sizes of the last group and of the groups before it, if there are groups. -/
def groupSizes (p : NumberPattern) : Option (Nat × Nat) :=
  let behind := p.whole.reverse
  let last := behind.takeWhile (· ≠ ',')
  match behind.dropWhile (· ≠ ',') with
  | [] => none
  | _ :: more =>
    let other := more.takeWhile (· ≠ ',')
    some (last.length, if other.length = more.length then last.length else other.length)

def isPercent (p : NumberPattern) : Bool :=
  '%' ∈ p.positive.1 ++ p.positive.2 ++ p.negative.1 ++ p.negative.2

/-- Puts a separator between groups, beginning at the end; a group of size zero takes all. -/
def separate (sign : Char) (others : Nat) : Nat → Nat → List Char → List Char
  | 0, _, ds => ds
  | fuel + 1, size, ds =>
    if ds.length ≤ size then ds
    else
      let cut := if size = 0 then 0 else ds.length - size
      separate sign others fuel others (ds.take cut) ++ sign :: ds.drop cut

def writeWhole (p : NumberPattern) (symbols : Locale.Symbols) (ds : List Char) : List Char :=
  let padded := List.replicate (p.minWhole - ds.length) '0' ++ ds
  match p.groupSizes with
  | none => padded
  | some (last, others) => separate symbols.group others (padded.length + 1) last padded

def writeFraction (p : NumberPattern) (symbols : Locale.Symbols) (ds : List Char) : List Char :=
  let padded := ds ++ List.replicate (p.minFraction - ds.length) '0'
  if p.maxFraction = 0 ∨ (p.minFraction = 0 ∧ padded.all (· = '0')) then []
  else
    let kept := padded.take p.minFraction
    let optional := ((padded.drop p.minFraction).reverse.dropWhile (· = '0')).reverse
    symbols.decimal :: kept ++ optional

/-- `c × 10 ^ e` with at most `precision` significant digits. -/
def toPrecision (c : Nat) (e : Int) : Nat × Int :=
  let extra := Number.digitCount c - precision
  (Number.roundHalfEven c (Nat.pow 10 extra), e + extra)

/-- The power of ten that the first digit of `c × 10 ^ e` stands for is not too great. A zero has no
such digit. -/
def isInRange (c : Nat) (e : Int) : Bool := c = 0 || e + Number.digitCount c - 1 ≤ maxMagnitude

/-- `c × 10 ^ e` as a multiple of `10 ^ -places`. -/
def quantize (places : Nat) (c : Nat) (e : Int) : Except Fault Nat :=
  let n := Number.digitCount c
  let shift := e + places
  if c = 0 then .ok 0
  else if 0 ≤ shift then
    if precision < n + shift then .error .tooManyDigits else .ok (c * Nat.pow 10 shift.toNat)
  else if n + 1 < shift.natAbs then .ok 0
  else
    let q := Number.roundHalfEven c (Nat.pow 10 shift.natAbs)
    if precision < Number.digitCount q then .error .tooManyDigits else .ok q

def digitsAround (places q : Nat) : List Char × List Char :=
  let fraction := Nat.toDigits 10 (q % Nat.pow 10 places)
  (Nat.toDigits 10 (q / Nat.pow 10 places),
    if places = 0 then ['0'] else List.replicate (places - fraction.length) '0' ++ fraction)

/-- The digits of a number without its sign. What is not a number is written as a word that keeps its
sign. -/
def writeDigits (p : NumberPattern) (symbols : Locale.Symbols) :
    Decimal → Except Fault (List Char)
  | .infinite _ => .ok ['∞']
  | .notANumber _ true _ => .error .signal
  | .notANumber negative false payload =>
    let word := (Decimal.notANumber negative false (payload % Nat.pow 10 precision)).text.toList
    .ok (p.writeWhole symbols word ++ p.writeFraction symbols ['0'])
  | .finite _ c e => do
    let (c, e) := toPrecision c (if p.isPercent then e + 2 else e)
    if !isInRange c e then throw .outOfRange
    let q ← quantize p.maxFraction c e
    let (whole, fraction) := digitsAround p.maxFraction q
    return p.writeWhole symbols whole ++ p.writeFraction symbols fraction

def write (p : NumberPattern) (symbols : Locale.Symbols) (d : Decimal) : Except Fault String := do
  let digits ← p.writeDigits symbols d
  let (lead, trail) := if d.isNegative then p.negative else p.positive
  let body := if p.digits = [] then [] else digits
  return String.ofList (lead ++ body ++ trail)

end NumberPattern

end Phrasebook
