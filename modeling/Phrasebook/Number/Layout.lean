/-!
Decimal layouts: how a number with given significant digits is laid out, positionally or with an
exponent. A `Layout` holds the decisions in which two forms of output differ.
-/

namespace Phrasebook.Number

structure Layout where
  /-- Numbers from `0.0001` up to this power of ten are written positionally. -/
  positionalBelow : Int
  /-- A number without fraction ends in `.0` when written positionally. -/
  pointZero : Bool

def exponentText (a : Int) : List Char :=
  let ds := Nat.toDigits 10 a.natAbs
  (if a < 0 then '-' else '+') :: List.replicate (2 - ds.length) '0' ++ ds

/-- Lays out the number `0.ds × 10 ^ point`; `ds` has no leading zero unless it is `0` itself. -/
def Layout.write (l : Layout) (ds : List Char) (point : Int) : List Char :=
  let a := point - 1
  if a < -4 ∨ l.positionalBelow ≤ a then
    let fraction := ds.drop 1
    ds.take 1 ++ (if fraction.isEmpty then [] else '.' :: fraction) ++ 'e' :: exponentText a
  else if point ≤ 0 then
    '0' :: '.' :: List.replicate (-point).toNat '0' ++ ds
  else if (ds.length : Int) ≤ point then
    ds ++ List.replicate (point - ds.length).toNat '0' ++ (if l.pointZero then ['.', '0'] else [])
  else
    ds.take point.toNat ++ '.' :: ds.drop point.toNat

end Phrasebook.Number
