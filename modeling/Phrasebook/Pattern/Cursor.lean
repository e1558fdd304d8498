import Phrasebook.Pattern.Token
import Phrasebook.Text.Position

/-!
Cursors: a place in a pattern from which single tokens are read. Places may lie outside the text;
a negative one is only clamped where a token is read from it.
-/

namespace Phrasebook.Pattern

structure Cursor where
  source : String
  pos : Int
  deriving DecidableEq, Repr

/-- The four tokens of patterns. All but `reference` can be empty. -/
inductive TokenKind where
  | literal
  | argument
  | method
  | reference
  deriving DecidableEq, Repr

def TokenKind.scan : TokenKind → List Char → Option (List Char × List Char)
  | literal, cs => some (scanText opensDirective cs)
  | argument, cs => some (scanText endsArgument cs)
  | method, cs => some (scanMethod cs)
  | reference, cs => scanReference cs

namespace Cursor

inductive Fault where
  /-- A character before the start of the text was asked for. -/
  | beforeStart
  /-- No reference starts here. -/
  | noReference
  deriving DecidableEq, Repr

def Fault.message : Fault → String
  | beforeStart => "string index out of range"
  | noReference => "Token regex '_(-?\\\\d+)' must accept the empty string"

def length (c : Cursor) : Nat := c.source.toList.length

def isAtEnd (c : Cursor) : Bool := c.length ≤ c.pos

/-- The character `ahead` places further on; one before the start is counted from the end. -/
def peek (c : Cursor) (ahead : Int) : Except Fault (Option Char) :=
  let target := c.pos + ahead
  if c.length ≤ target then .ok none
  else
    let index := if target < 0 then target + c.length else target
    if index < 0 then .error .beforeStart else .ok c.source.toList[index.toNat]?

def advance (c : Cursor) (count : Int) : Cursor := ⟨c.source, min (c.pos + count) c.length⟩

def scan (c : Cursor) (kind : TokenKind) : Except Fault (String × Cursor) :=
  let start := min c.pos.toNat c.length
  match kind.scan (c.source.toList.drop start) with
  | some (token, _) => .ok (String.ofList token, ⟨c.source, start + token.length⟩)
  | none => .error .noReference

def lineColumn (c : Cursor) : Nat × Int :=
  (Text.line c.source.toList c.pos, Text.column c.source.toList c.pos)

end Cursor

end Phrasebook.Pattern
