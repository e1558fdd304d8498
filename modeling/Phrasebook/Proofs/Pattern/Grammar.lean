import Phrasebook.Pattern.Parser

/-!
The grammar of patterns, as relations between the characters of a phrase and what it denotes.
No rule looks past its own phrase, except that two runs of text never stand side by side and that
a tilde may only be the last character of the whole pattern.
-/

namespace Phrasebook.Pattern

/-- `Spells stop final w t`: the text `w` has no unescaped character that stops it and denotes `t`.
Only `final` text may end in a tilde, which would otherwise escape what follows. -/
inductive Spells (stop : Char → Bool) : Bool → List Char → List Char → Prop
  | nil {final : Bool} : Spells stop final [] []
  | escape {final : Bool} {c : Char} {w t : List Char} (hc : isEscapable c = true)
      (h : Spells stop final w t) : Spells stop final ('~' :: c :: w) (c :: t)
  | tilde {final : Bool} {c : Char} {w t : List Char} (hc : isEscapable c = false)
      (h : Spells stop final (c :: w) t) : Spells stop final ('~' :: c :: w) ('~' :: t)
  | plain {final : Bool} {c : Char} {w t : List Char} (ht : c ≠ '~') (hc : stop c = false)
      (h : Spells stop final w t) : Spells stop final (c :: w) (c :: t)
  | last : Spells stop true ['~'] ['~']

inductive Numeral : List Char → Nat → Prop
  | digit {c : Char} (hc : c.isDigit = true) : Numeral [c] (Text.asciiDigitValue c)
  | snoc {ds : List Char} {n : Nat} {c : Char} (h : Numeral ds n) (hc : c.isDigit = true) :
      Numeral (ds ++ [c]) (10 * n + Text.asciiDigitValue c)

/-- A reference in writing, its number of digits and its index. -/
inductive Reference : List Char → Nat → Int → Prop
  | plain {ds : List Char} {n : Nat} (h : Numeral ds n) : Reference ('_' :: ds) ds.length n
  | negative {ds : List Char} {n : Nat} (h : Numeral ds n) :
      Reference ('_' :: '-' :: ds) ds.length (-n)

inductive Place where
  | outside
  | argument
  deriving DecidableEq, Repr

/-- A piece of text, `final` if the pattern ends with it, and its node. -/
inductive Chunk : Place → Bool → List Char → Node → Prop
  | plain {final : Bool} {w t : List Char} (hw : w ≠ []) (h : Spells opensDirective final w t) :
      Chunk .outside final w (.literal (String.ofList t))
  | reference {final : Bool} {w : List Char} {k : Nat} {i : Int} (h : Reference w k i)
      (hk : k ≤ maxReferenceDigits) : Chunk .argument final w (.reference i)
  | text {final : Bool} {w t : List Char} (hw : w ≠ []) (h : Spells endsArgument false w t)
      (hr : ∀ k i, ¬ Reference w k i) (hs : w ≠ ['_', '*']) :
      Chunk .argument final w (.literal (String.ofList t))

/-- The method tokens. A name that starts like a reference is none, because references are tried
first. -/
inductive Token : List Char → Method → Prop
  | empty : Token [] (.list [])
  | reference {w : List Char} {k : Nat} {i : Int} (h : Reference w k i)
      (hk : k ≤ maxReferenceDigits) : Token w (.list [.reference i])
  | choice : Token ['*'] (.named "quant")
  | number : Token ['#'] (.named "numf")
  | name {w : List Char} (hn : isName w = true)
      (hr : ∀ p q k i, w = p ++ q → ¬ Reference p k i) : Token w (.named (String.ofList w))

/-- What the phrases of the grammar are: a run, `afterText` if text stands right before it, a
directive with its brackets, or arguments with their commas. -/
inductive Form where
  | run (place : Place) (afterText : Bool)
  | directive
  | arguments
  deriving DecidableEq, Repr

/-- `Derives f room w nodes`: the phrase `w` of the form `f`, in which directives nest at most
`room` deep, denotes `nodes`. -/
inductive Derives : Form → Nat → List Char → List Node → Prop
  | done {place : Place} {b : Bool} {room : Nat} : Derives (.run place b) room [] []
  | chunk {place : Place} {room : Nat} {w v : List Char} {node : Node} {nodes : List Node}
      (hw : Chunk place v.isEmpty w node) (hv : Derives (.run place true) room v nodes) :
      Derives (.run place false) room (w ++ v) (node :: nodes)
  | nested {place : Place} {b : Bool} {room : Nat} {w v : List Char} {found nodes : List Node}
      (hw : Derives .directive room w found) (hv : Derives (.run place false) room v nodes) :
      Derives (.run place b) room (w ++ v) (found ++ nodes)
  | none {room : Nat} : Derives .arguments room [] []
  | argument {room : Nat} {w v : List Char} {parts args : List Node}
      (hw : Derives (.run .argument false) room w parts) (hv : Derives .arguments room v args) :
      Derives .arguments room (',' :: (w ++ v)) (collapse parts :: args)
  | nothing {room : Nat} : Derives .directive (room + 1) ['[', ']'] []
  | list {room : Nat} {w v : List Char} {seed args : List Node} (hw : Token w (.list seed))
      (hv : Derives .arguments room v args) (hn : seed ++ args ≠ []) :
      Derives .directive (room + 1) ('[' :: (w ++ v ++ [']'])) [.sequence (seed ++ args)]
  | call {room : Nat} {w v : List Char} {name : String} {args : List Node}
      (hw : Token w (.named name)) (hv : Derives .arguments room v args) :
      Derives .directive (room + 1) ('[' :: (w ++ v ++ [']'])) [.call name args]

/-- What follows the bracket that closes the innermost `depth` open ones, if they are all closed.
Escaped characters do not count. -/
def afterMatch : Nat → List Char → Option (List Char)
  | 0, s => some s
  | depth + 1, '~' :: c :: s =>
    if isEscapable c then afterMatch (depth + 1) s else afterMatch (depth + 1) (c :: s)
  | depth + 1, '[' :: s => afterMatch (depth + 2) s
  | depth + 1, ']' :: s => afterMatch depth s
  | depth + 1, _ :: s => afterMatch (depth + 1) s
  | _ + 1, [] => .none

end Phrasebook.Pattern
