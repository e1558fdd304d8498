import Phrasebook.Text.Quoted

/-!
Literals: text between double quotes with every control character, the two line separators, the
double quote and the backslash written as escapes. A reader of such a literal finds its end at the
first double quote that no backslash precedes, whatever follows.
-/

namespace Phrasebook.Text

def namedEscapes : List (Char × List Char) :=
  [('\x08', ['\\', 'b']), ('\x0c', ['\\', 'f']), ('\n', ['\\', 'n']), ('\r', ['\\', 'r']),
   ('\t', ['\\', 't']), ('\x0b', ['\\', 'v']), ('\u2028', "\\u2028".toList),
   ('\u2029', "\\u2029".toList), ('"', ['\\', '"']), ('\\', ['\\', '\\'])]

def isControl (c : Char) : Bool :=
  c.toNat < 0x20 || (0x7f ≤ c.toNat && c.toNat ≤ 0x9f)

def escapeLiteral (c : Char) : List Char :=
  match namedEscapes.lookup c with
  | some e => e
  | none => if isControl c then '\\' :: 'x' :: hex 2 c.toNat else [c]

def literal (s : String) : String :=
  String.ofList ('"' :: s.toList.flatMap escapeLiteral ++ ['"'])

end Phrasebook.Text
