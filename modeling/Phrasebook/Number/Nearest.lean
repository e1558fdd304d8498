import Phrasebook.Number.Decimal

/-!
The floating-point number nearest to a decimal. Decimals far outside the range are settled by
their magnitude alone.
-/

namespace Phrasebook.Decimal

def toFloat : Decimal → Float
  | .notANumber .. => 0.0 / 0.0
  | .infinite negative => if negative then -1.0 / 0.0 else 1.0 / 0.0
  | .finite negative c e =>
    let magnitude := (Nat.toDigits 10 c).length + e
    let x : Float :=
      if c = 0 ∨ magnitude < -400 then 0.0
      else if 400 < magnitude then 1.0 / 0.0
      else Float.ofScientific c (e < 0) e.natAbs
    if negative then -x else x

end Phrasebook.Decimal
