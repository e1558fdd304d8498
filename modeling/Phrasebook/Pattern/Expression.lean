import Phrasebook.Pattern.Node
import Phrasebook.Text.Literal
import Phrasebook.Value

/-!
Expressions: a one-line form of a tree for diagnostics, over an argument list `args`, a mapping
`extensions` and a function `concat`. An index that is too long to be written has no expression.
-/

namespace Phrasebook.Pattern.Node

/-- An argument by its index; a negative one is counted from the end. -/
def indexExpression (i : Int) : Option String :=
  if 0 ≤ i then (Value.intText i).map fun t => "args[" ++ t ++ "]"
  else (Value.intText (-i)).map fun t => "args[len(args) - " ++ t ++ "]"

mutual

def expression : Node → Option String
  | literal text => some (Text.literal text)
  | reference i => indexExpression i
  | call name args => do
    let rendered ← expressions args
    return "extensions[" ++ Text.quoted name ++ "](" ++
      Value.commaSeparated ("args[0]" :: rendered) ++ ")"
  | sequence items => do
    match ← expressions items with
    | [] => return "\"\""
    | [single] => return single
    | rendered => return "concat(" ++ Value.commaSeparated rendered ++ ")"

def expressions : List Node → Option (List String)
  | [] => some []
  | node :: nodes => do
    let e ← expression node
    let es ← expressions nodes
    return e :: es

end

end Phrasebook.Pattern.Node
