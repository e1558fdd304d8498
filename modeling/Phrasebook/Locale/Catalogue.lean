import Phrasebook.Locale.Library
import Phrasebook.Locale.NumberFormat

/-!
A library of a few locales, with the sign for decimals, the sign between groups of digits and the
pattern of a plain number that each of them has.
-/

namespace Phrasebook.Locale

structure Known where
  code : String
  symbols : Symbols
  /-- Groups of three and then of two digits. -/
  lakhs : Bool
  deriving DecidableEq, Repr

def Known.standard (k : Known) : NumberPattern :=
  .ofText (if k.lakhs then "#,##,##0.###" else "#,##0.###")

def american : Known := ⟨fallbackCode, ⟨'.', ','⟩, false⟩

def known : List Known :=
  [⟨"en", ⟨'.', ','⟩, false⟩, american, ⟨"en_GB", ⟨'.', ','⟩, false⟩, ⟨"en_IN", ⟨'.', ','⟩, true⟩,
   ⟨"de", ⟨',', '.'⟩, false⟩, ⟨"de_AT", ⟨',', '.'⟩, false⟩, ⟨"de_CH", ⟨'.', '\u2019'⟩, false⟩,
   ⟨"fr", ⟨',', '\u202f'⟩, false⟩, ⟨"fr_CA", ⟨',', '\u00a0'⟩, false⟩, ⟨"es", ⟨',', '.'⟩, false⟩,
   ⟨"pt_BR", ⟨',', '.'⟩, false⟩, ⟨"pt_PT", ⟨',', '\u00a0'⟩, false⟩, ⟨"it", ⟨',', '.'⟩, false⟩,
   ⟨"ja", ⟨'.', ','⟩, false⟩, ⟨"ru", ⟨',', '\u00a0'⟩, false⟩, ⟨"lv", ⟨',', '\u00a0'⟩, false⟩,
   ⟨"hi", ⟨'.', ','⟩, true⟩, ⟨"sv", ⟨',', '\u00a0'⟩, false⟩, ⟨"pl", ⟨',', '\u00a0'⟩, false⟩,
   ⟨"nb", ⟨',', '\u00a0'⟩, false⟩, ⟨"he", ⟨'.', ','⟩, false⟩, ⟨"sr_Latn", ⟨',', '.'⟩, false⟩,
   ⟨"zh_Hant_TW", ⟨'.', ','⟩, false⟩]

/-- Codes are compared without regard to case. -/
def sameCode (a b : String) : Bool := a.toList.map Char.toLower = b.toList.map Char.toLower

def find? (code : String) : Option Known := known.find? fun k => sameCode k.code code

/-- The decimal that stands for a number; a truth value has none. -/
def decimalOf : Value → Except Phrasebook.Fault Decimal
  | .int n => if (Value.intText n).isSome then .ok (.ofInt n) else .error .longNumber
  | .float x =>
    match Numeral.read (Number.floatText x) with
    | some d => .ok d
    | none => .error .numberFormat
  | .decimal d => .ok d
  | _ => .error .numberFormat

def written : Except NumberPattern.Fault String → Except Phrasebook.Fault String
  | .ok s => .ok s
  | .error .outOfRange => .error .numberRange
  | .error _ => .error .numberFormat

def Library.catalogue : Library where
  parse code := (find? code).map Known.code
  formatDecimal number pattern code := do
    let k := (find? code).getD american
    let d ← decimalOf number
    written (((pattern.map NumberPattern.ofText).getD k.standard).write k.symbols d)
  parse_fallback := by decide

end Phrasebook.Locale
