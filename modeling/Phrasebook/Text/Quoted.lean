import Phrasebook.Text.Printable

/-!
Quoted text: the form in which text appears inside other values and in messages. Single quotes
are used unless the text holds single quotes and no double ones. The quote in use and the
backslash are escaped, line feed, carriage return and tab have short names, and every other
character that is not printable is written as a hexadecimal number.
-/

namespace Phrasebook.Text

def hex (width n : Nat) : List Char :=
  let ds := Nat.toDigits 16 n
  List.replicate (width - ds.length) '0' ++ ds

/-- A character by its number: `\xhh`, `\uhhhh` or `\Uhhhhhhhh`, the shortest that holds it. -/
def numbered (c : Char) : List Char :=
  let n := c.toNat
  if n ≤ 0xff then '\\' :: 'x' :: hex 2 n
  else if n ≤ 0xffff then '\\' :: 'u' :: hex 4 n
  else '\\' :: 'U' :: hex 8 n

def quoteMark (cs : List Char) : Char :=
  if '\'' ∈ cs ∧ '"' ∉ cs then '"' else '\''

def escapeQuoted (mark c : Char) : List Char :=
  if c = mark ∨ c = '\\' then ['\\', c]
  else if c = '\n' then ['\\', 'n']
  else if c = '\r' then ['\\', 'r']
  else if c = '\t' then ['\\', 't']
  else if isPrintable c then [c]
  else numbered c

def quoted (s : String) : String :=
  let cs := s.toList
  let mark := quoteMark cs
  String.ofList (mark :: cs.flatMap (escapeQuoted mark) ++ [mark])

end Phrasebook.Text
