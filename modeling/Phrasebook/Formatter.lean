import Phrasebook.Pattern.Expression
import Phrasebook.Registry

/-!
Formatters: compiled patterns. Compiling looks every name up once, so that a formatter keeps its
extensions whatever is registered later. A formatter is run with a context and arguments; argument
`0` is the context, and an argument that is not there is nothing.
-/

namespace Phrasebook

inductive Program where
  | text (s : String)
  | select (index : Int)
  | call (f : Extension) (args : List Program)
  | concat (parts : List Program)

namespace Program

instance : Inhabited Program := ⟨concat []⟩

mutual

/-- The program of a tree. A call is looked up before the calls in its arguments. -/
def ofNode (r : Registry Extension) : Pattern.Node → Except Fault Program
  | .literal s => .ok (text s)
  | .reference i => .ok (select i)
  | .call name args =>
    match r.resolve name with
    | .error f => .error f
    | .ok f => (ofNodes r args).map (call f)
  | .sequence items => (ofNodes r items).map concat

def ofNodes (r : Registry Extension) : List Pattern.Node → Except Fault (List Program)
  | [] => .ok []
  | node :: nodes =>
    match ofNode r node with
    | .error f => .error f
    | .ok p => (ofNodes r nodes).map (p :: ·)

end

/-- The argument at an index, a negative one counted from the end. -/
def argument (argv : List Value) (index : Int) : Value :=
  let position := if 0 ≤ index then index else argv.length + index
  if 0 ≤ position then (argv[position.toNat]?).getD .none else .none

mutual

def eval (c : Context) (argv : List Value) : Program → Outcome Value
  | text s => .ok (.text s)
  | select i => .ok (argument argv i)
  | call f args => (evalAll c argv args).andThen (f c)
  | concat parts => do return .text (← join c argv parts)

def evalAll (c : Context) (argv : List Value) : List Program → Outcome (List Value)
  | [] => .ok []
  | p :: ps => do
    let v ← eval c argv p
    let vs ← evalAll c argv ps
    return v :: vs

def join (c : Context) (argv : List Value) : List Program → Outcome String
  | [] => .ok ""
  | p :: ps => do
    let v ← eval c argv p
    let s ← .ofText v.rendered
    let t ← join c argv ps
    return s ++ t

end

end Program

structure Formatter where
  pattern : String
  /-- The tree as an expression, for diagnostics. -/
  source : String
  program : Program

namespace Formatter

def ofNode (r : Registry Extension) (pattern : String) (node : Pattern.Node) :
    Except Fault Formatter := do
  let program ← Program.ofNode r node
  match node.expression with
  | some source => return ⟨pattern, source, program⟩
  | none => throw .longNumber

def ofPattern (r : Registry Extension) (pattern : String) : Except Fault Formatter :=
  match Pattern.parse pattern with
  | .ok node => ofNode r pattern node
  | .error f => .error (.pattern f)

def run (f : Formatter) (c : Context) (args : List Value) : Outcome String := do
  let v ← f.program.eval c (c.self :: args)
  .ofText v.rendered

def text (f : Formatter) : String := "Formatter(pattern=" ++ Text.quoted f.pattern ++ ")"

end Formatter

end Phrasebook
