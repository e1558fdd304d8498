import Phrasebook.Diagnostic
import Phrasebook.Pattern.Escape
import Phrasebook.Pattern.Node
import Phrasebook.Pattern.Token
import Phrasebook.Value

/-!
Reading patterns.

    pattern   := (text | directive)*
    directive := "[" method ("," argument)* "]"
    method    := "" | "_" integer | "*" | "#" | name
    argument  := (text | "_" integer | directive)*

Each reader takes what is left of the pattern and returns what it leaves, which is shorter; a
fault is located by the number of characters left where it is found. Nesting is bounded by the
room that a directive is given, so the readers need no other measure. They take what room they
need: a limit that a caller sets beyond the stack of the system is kept here all the same.
-/

namespace Phrasebook.Pattern

/-- Why reading a pattern stops, and how many characters are left there. -/
inductive Stop where
  | malformed (cause : Cause) (left : Nat)
  | longReference
  deriving DecidableEq, Repr

def collapse : List Node → Node
  | [] => .literal ""
  | [part] => part
  | parts => .sequence parts

/-- The nodes of a run of argument text; `left` characters are left where it starts. -/
def argumentText (text : List Char) (left : Nat) : Except Stop (List Node) :=
  if text = [] then .ok []
  else
    match referenceIndex? text with
    | some (some i) => .ok [.reference i]
    | some none => .error .longReference
    | none =>
      if isUnsupported text then .error (.malformed .unsupportedReference left)
      else .ok [.literal (String.ofList (decode text))]

/-- A reader of directives: it starts behind the opening bracket and ends behind the closing one.
The directive `[]` has no node. -/
abbrev Reader := (s : List Char) → Except Stop (Option Node × Rest s)

/-- Reads arguments up to the end of their directive; `parts` are the nodes that the current
argument has so far. -/
def arguments (nested : Reader) (s : List Char) (parts : List Node) :
    Except Stop (List Node × Rest s) :=
  match cutText endsArgument s with
  | (text, ended) =>
    match argumentText text s.length, ended with
    | .error stop, _ => .error stop
    | .ok _, none => .error (.malformed .unmatchedBracket 0)
    | .ok found, some (c, r) =>
      if c = ']' then .ok ([collapse (parts ++ found)], r)
      else if c = ',' then
        match arguments nested r.1 [] with
        | .error stop => .error stop
        | .ok (args, r') => .ok (collapse (parts ++ found) :: args, r.within r')
      else
        match nested r.1 with
        | .error stop => .error stop
        | .ok (node, r') =>
          match arguments nested r'.1 (parts ++ found ++ node.toList) with
          | .error stop => .error stop
          | .ok (args, r'') => .ok (args, (r.within r').within r'')
termination_by s.length
decreasing_by
  · exact r.2
  · exact Nat.lt_trans r'.2 r.2

inductive Method where
  | list (seed : List Node)
  | named (name : String)

def method (token : List Char) (left : Nat) : Except Stop Method :=
  if isUnsupported token then .error (.malformed .unsupportedReference left)
  else
    match referenceIndex? token with
    | some none => .error .longReference
    | some (some i) => .ok (.list [.reference i])
    | none => .ok (if token = [] then .list [] else .named (methodName token))

def Method.node : Method → List Node → Option Node
  | .list [], [] => none
  | .list seed, args => some (.sequence (seed ++ args))
  | .named name, args => some (.call name args)

/-- Reads a directive inside which `room - 1` more may be nested. -/
def directive (limit : Int) : Nat → Reader
  | 0, s => .error (.malformed (.nestingTooDeep limit) (s.length + 1))
  | room + 1, s =>
    match cutMethod s with
    | (_, none) => .error (.malformed .unmatchedBracket (s.length + 1))
    | (token, some (c, r)) =>
      if c = ',' ∨ c = ']' then
        match method token s.length with
        | .error stop => .error stop
        | .ok m =>
          if c = ']' then .ok (m.node [], r)
          else
            match arguments (directive limit room) r.1 [] with
            | .error stop => .error stop
            | .ok (args, r') => .ok (m.node args, r.within r')
      else .error (.malformed .unknownContext (r.1.length + 1))

def plainText (text : List Char) : List Node :=
  if text = [] then [] else [.literal (String.ofList (decode text))]

def items (nested : Reader) (s : List Char) : Except Stop (List Node) :=
  match cutText opensDirective s with
  | (text, none) => .ok (plainText text)
  | (text, some (_, r)) =>
    match nested r.1 with
    | .error stop => .error stop
    | .ok (node, r') =>
      match items nested r'.1 with
      | .error stop => .error stop
      | .ok nodes => .ok (plainText text ++ node.toList ++ nodes)
termination_by s.length
decreasing_by exact Nat.lt_trans r'.2 r.2

/-- A pattern that cannot be read, and where. -/
structure Malformed where
  cause : Cause
  pattern : String
  position : Nat
  deriving DecidableEq, Repr

namespace Malformed

def diagnostic (m : Malformed) : Diagnostic := .malformed m.cause m.pattern m.position

def context (m : Malformed) : String := Text.markAt m.pattern m.position

end Malformed

inductive Fault where
  | malformed (m : Malformed)
  /-- A number has more digits than can be converted. -/
  | longNumber
  deriving DecidableEq, Repr

@[match_pattern] def Fault.longReference : Fault := .longNumber

def isWritable : Cause → Bool
  | .nestingTooDeep limit => (Value.intText limit).isSome
  | _ => true

def Stop.locate (pattern : String) : Stop → Fault
  | malformed cause left =>
    if isWritable cause then .malformed ⟨cause, pattern, pattern.toList.length - left⟩
    else .longNumber
  | longReference => .longReference

/-- Directives may nest this deep unless a caller says otherwise. -/
def defaultDepth : Int := 100

/-- Reads a pattern whose directives nest at most `limit` deep. The tree is a sequence. -/
def parseWithin (limit : Int) (pattern : String) : Except Fault Node :=
  match items (directive limit limit.toNat) pattern.toList with
  | .ok nodes => .ok (.sequence nodes)
  | .error stop => .error (stop.locate pattern)

def parse (pattern : String) : Except Fault Node := parseWithin defaultDepth pattern

end Phrasebook.Pattern
