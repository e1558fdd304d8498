import Phrasebook.Locale.Library
import Phrasebook.Outcome

/-!
Extensions: the functions that patterns call. An extension is given the calling context and the
values of its arguments. Two are built in: `quant` chooses the form of a phrase that fits a count,
`numf` writes a number in the manner of the locale, as a library of locales does it.
-/

namespace Phrasebook

/-- The first argument of an extension. A handle can choose between forms and has a locale, any
other value can do neither. -/
structure Context where
  self : Value
  quantify : Option (List Value → Outcome Value)

namespace Context

def ofValue (v : Value) : Context := ⟨v, none⟩

def locale (c : Context) (b : Locale.Library) : Outcome String :=
  match c.self with
  | .handle h => .ok (b.localeOf h.tag)
  | _ => .fail .noAttribute

end Context

abbrev Extension := Context → List Value → Outcome Value

namespace Extension

def formText : Value → Outcome Value
  | .none => .ok .none
  | v => do return .text (← .ofText v.plain)

def chooseForm (c : Context) (count singular plural zero : Value) : Outcome Value :=
  match c.quantify with
  | none => .fail .noAttribute
  | some quantify => do
    let singular ← .ofText singular.plain
    let plural ← formText plural
    let zero ← formText zero
    quantify [count, .text singular, plural, zero]

def quant : Extension := fun c args =>
  match args with
  | [count] => chooseForm c count (.text "") .none .none
  | [count, singular] => chooseForm c count singular .none .none
  | [count, singular, plural] => chooseForm c count singular plural .none
  | [count, singular, plural, zero] => chooseForm c count singular plural zero
  | _ => .fail .argumentCount

def numberPattern (v : Value) : Outcome (Option String) :=
  if v.holds then do return some (← .ofText v.plain) else .ok none

def writeNumber (b : Locale.Library) (c : Context) (number format : Value) : Outcome Value := do
  let pattern ← numberPattern format
  let locale ← c.locale b
  return .text (← .ofExcept (b.formatDecimal number pattern locale))

def writeNumeral (b : Locale.Library) (c : Context) (v format : Value) : Outcome Value := do
  let s ← .ofText v.plain
  match Numeral.read s with
  | some d => writeNumber b c (.decimal d) format
  | none =>
    .note (.notNumber (v.quoted.getD s))
    return .text s

def formatNumber (b : Locale.Library) (c : Context) (v format : Value) : Outcome Value :=
  match v with
  | .none | .text "" => .ok (.text "")
  | .bool _ | .int _ | .float _ | .decimal _ => writeNumber b c v format
  | v => writeNumeral b c v format

def numf (b : Locale.Library) : Extension := fun c args =>
  match args with
  | [v] => formatNumber b c v .none
  | [v, format] => formatNumber b c v format
  | _ => .fail .argumentCount

end Extension

end Phrasebook
