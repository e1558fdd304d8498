/-!
The tree of a pattern: literal text, references to arguments, calls of extensions, and sequences
whose parts are written one after the other.
-/

namespace Phrasebook.Pattern

inductive Node where
  | literal (text : String)
  /-- Argument `0` is the calling context; a negative index counts from the last argument. -/
  | reference (index : Int)
  | call (name : String) (args : List Node)
  | sequence (items : List Node)

namespace Node

instance : Inhabited Node := ⟨sequence []⟩

def isLiteral : Node → Bool
  | literal _ => true
  | _ => false

def isReference : Node → Bool
  | reference _ => true
  | _ => false

def isCall : Node → Bool
  | call .. => true
  | _ => false

def isSequence : Node → Bool
  | sequence _ => true
  | _ => false

end Node

end Phrasebook.Pattern
