import Phrasebook.Fault

/-!
The library of locales: it knows which codes name a locale, and writes numbers in the manner of a
locale. What a library knows is not described here, and whatever uses one takes it as a parameter;
`Library.catalogue` is a library of a few locales.
-/

namespace Phrasebook.Locale

/-- The code of the locale that stands in for the tags that no library knows. -/
def fallbackCode : String := "en_US"

structure Library where
  /-- The locale that a code names. Locales are told apart by the codes of their own. -/
  parse : String → Option String
  /-- The text of a number in a locale, by a pattern or else in the manner of the locale. -/
  formatDecimal : Value → Option String → String → Except Phrasebook.Fault String
  parse_fallback : (parse fallbackCode).isSome

def Library.localeOf (b : Library) (tag : String) : String :=
  (b.parse (toCode tag)).getD ((b.parse fallbackCode).get b.parse_fallback)

end Phrasebook.Locale
