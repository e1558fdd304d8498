import Phrasebook.Number.Decimal
import Phrasebook.Text.Blank
import Phrasebook.Text.Digit

/-!
Numerals: the texts that denote a decimal number.

    numeral  := sign? (magnitude exponent? | "inf" | "infinity" | "nan" digits? | "snan" digits?)
    magnitude := digits ("." digits?)? | "." digits
    exponent := ("e" | "E") sign? digits

Blanks around a numeral do not count, underscores inside it do not count, digits of every script
are digits, and words are read in any case. Numbers whose exponent has about nineteen digits are
out of range.
-/

namespace Phrasebook.Numeral

def largestExponent : Int := 999999999999999999

def smallestExponent : Int := -1999999999999999997

def plain (c : Char) : Char :=
  match Text.digitValue? c with
  | some d => Char.ofNat ('0'.toNat + d)
  | none => c

def sign : List Char → Bool × List Char
  | '-' :: cs => (true, cs)
  | '+' :: cs => (false, cs)
  | cs => (false, cs)

def lower (c : Char) : Char := c.toLower

def exponent : List Char → Option Int
  | [] => some 0
  | c :: cs =>
    if c = 'e' ∨ c = 'E' then
      let (negative, ds) := sign cs
      if ds ≠ [] ∧ ds.all Char.isDigit then
        some (if negative then -(Text.ofDigits ds : Int) else Text.ofDigits ds)
      else none
    else none

def inRange (negative : Bool) (c : Nat) (e : Int) : Option Decimal :=
  let top := if c = 0 then e else e + (Nat.toDigits 10 c).length - 1
  if smallestExponent ≤ e ∧ top ≤ largestExponent then some (.finite negative c e) else none

def finite (negative : Bool) (cs : List Char) : Option Decimal := do
  let whole := cs.takeWhile Char.isDigit
  let rest := cs.dropWhile Char.isDigit
  let (fraction, rest) :=
    match rest with
    | '.' :: rest => (rest.takeWhile Char.isDigit, rest.dropWhile Char.isDigit)
    | rest => ([], rest)
  if whole ++ fraction = [] then none
  else do
    let e ← exponent rest
    inRange negative (Text.ofDigits (whole ++ fraction)) (e - fraction.length)

def word (negative : Bool) (cs : List Char) : Option Decimal :=
  let low := cs.map lower
  let name := low.takeWhile (!·.isDigit)
  let digits := low.dropWhile (!·.isDigit)
  if !digits.all Char.isDigit then none
  else if name = "nan".toList then some (.notANumber negative false (Text.ofDigits digits))
  else if name = "snan".toList then some (.notANumber negative true (Text.ofDigits digits))
  else if digits = [] ∧ (name = "inf".toList ∨ name = "infinity".toList) then
    some (.infinite negative)
  else none

def read (s : String) : Option Decimal :=
  let cs := ((Text.strip s.toList).filter (· ≠ '_')).map plain
  let (negative, cs) := sign cs
  (finite negative cs).or (word negative cs)

end Phrasebook.Numeral
