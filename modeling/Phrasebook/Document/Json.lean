import Phrasebook.Number.Nearest
import Phrasebook.Text.Position
import Phrasebook.Value

/-!
Reading JSON into values. Objects become maps in their order, numbers with a fraction or an
exponent become floating-point numbers, and the words `NaN`, `Infinity` and `-Infinity` are read
too. A fault is located by the number of characters that are left where it is found.
-/

namespace Phrasebook.Json

inductive Cause where
  | value
  | propertyName
  | colon
  | comma
  | unterminated
  | controlCharacter
  | escape
  | unicodeEscape
  | extraData
  | byteOrderMark
  deriving DecidableEq, Repr

def Cause.text : Cause → String
  | value => "Expecting value"
  | propertyName => "Expecting property name enclosed in double quotes"
  | colon => "Expecting ':' delimiter"
  | comma => "Expecting ',' delimiter"
  | unterminated => "Unterminated string starting at"
  | controlCharacter => "Invalid control character at"
  | escape => "Invalid \\escape"
  | unicodeEscape => "Invalid \\uXXXX escape"
  | extraData => "Extra data"
  | byteOrderMark => "Unexpected UTF-8 BOM (decode using utf-8-sig)"

inductive Container where
  | array
  | object
  deriving DecidableEq, Repr

def Container.name : Container → String
  | array => "array"
  | object => "object"

inductive Stop where
  | at (cause : Cause) (left : Nat)
  | longNumber (digits : Nat)
  | tooDeep (c : Container)
  deriving DecidableEq, Repr

inductive Fault where
  | malformed (cause : Cause) (line : Nat) (column : Int) (position : Nat)
  | longNumber (digits : Nat)
  | tooDeep (c : Container)
  deriving DecidableEq, Repr

def Fault.message : Fault → String
  | malformed cause line column position =>
    cause.text ++ ": line " ++ toString line ++ " column " ++ toString column ++ " (char " ++
      toString position ++ ")"
  | longNumber digits =>
    "Exceeds the limit (4300 digits) for integer string conversion: value has " ++
      toString digits ++ " digits; use sys.set_int_max_str_digits() to increase the limit"
  | tooDeep c =>
    "maximum recursion depth exceeded while decoding a JSON " ++ c.name ++
      " from a unicode string"

/-- How deep containers can be nested. The format sets no limit; this is where a reader runs out of
room whose stack holds a thousand calls, fifteen of which are open before it starts. -/
def maxNesting : Nat := 985

def skipBlank (cs : List Char) : List Char :=
  cs.dropWhile fun c => c = ' ' || c = '\t' || c = '\n' || c = '\r'

def hexValue? (c : Char) : Option Nat :=
  if c.isDigit then some (c.toNat - 48)
  else if 'a' ≤ c ∧ c ≤ 'f' then some (c.toNat - 87)
  else if 'A' ≤ c ∧ c ≤ 'F' then some (c.toNat - 55)
  else none

def hexValues (cs : List Char) : Option Nat :=
  cs.foldlM (fun n c => (hexValue? c).map (16 * n + ·)) 0

def shortEscape? (c : Char) : Option Char :=
  [('"', '"'), ('\\', '\\'), ('/', '/'), ('b', '\x08'), ('f', '\x0c'), ('n', '\n'), ('r', '\r'),
    ('t', '\t')].lookup c

def isHighSurrogate (n : Nat) : Bool := 0xd800 ≤ n && n < 0xdc00

def isLowSurrogate (n : Nat) : Bool := 0xdc00 ≤ n && n < 0xe000

/-- The character of a code unit; a surrogate that stands alone is replaced. -/
def unit (n : Nat) : Char :=
  if isHighSurrogate n || isLowSurrogate n then '\ufffd' else Char.ofNat n

/-- The second half of a pair: its number and how many characters spell it. -/
def lowHalf (cs : List Char) : Except Unit (Option Nat) :=
  match cs with
  | '\\' :: 'u' :: rest =>
    if rest.length < 5 then .ok none
    else
      match hexValues (rest.take 4) with
      | none => .error ()
      | some n => .ok (if isLowSurrogate n then some n else none)
  | _ => .ok none

/-- Reads the rest of a string, whose opening quote stands where `opened` characters are left. -/
def string (opened : Nat) : Nat → List Char → Except Stop (List Char × List Char)
  | 0, _ => .error (.at .unterminated opened)
  | fuel + 1, cs =>
    let proceed (c : Char) (rest : List Char) : Except Stop (List Char × List Char) :=
      (string opened fuel rest).map fun found => (c :: found.1, found.2)
    match cs with
    | [] => .error (.at .unterminated opened)
    | '"' :: rest => .ok ([], rest)
    | '\\' :: [] => .error (.at .unterminated opened)
    | '\\' :: 'u' :: rest =>
      if rest.length < 5 then .error (.at .unicodeEscape (rest.length + 1))
      else
        match hexValues (rest.take 4) with
        | none => .error (.at .unicodeEscape (rest.length + 1))
        | some n =>
          let rest' := rest.drop 4
          if isHighSurrogate n then
            match lowHalf rest' with
            | .error _ => .error (.at .unicodeEscape (rest'.length - 1))
            | .ok none => proceed (unit n) rest'
            | .ok (some m) =>
              proceed (Char.ofNat (0x10000 + (n - 0xd800) * 0x400 + (m - 0xdc00))) (rest'.drop 6)
          else proceed (unit n) rest'
    | '\\' :: c :: rest =>
      match shortEscape? c with
      | some e => proceed e rest
      | none => .error (.at .escape (rest.length + 2))
    | c :: rest =>
      if c.toNat < 0x20 then .error (.at .controlCharacter (rest.length + 1))
      else proceed c rest

def number (cs : List Char) : Except Stop (Value × List Char) :=
  let (negative, rest) : Bool × List Char :=
    match cs with
    | '-' :: rest => (true, rest)
    | rest => (false, rest)
  let run := rest.takeWhile Char.isDigit
  let whole := if run.head? = some '0' then ['0'] else run
  let rest := rest.drop whole.length
  if whole = [] then .error (.at .value cs.length)
  else
    let (fraction, rest) : List Char × List Char :=
      match rest with
      | '.' :: more =>
        let ds := more.takeWhile Char.isDigit
        if ds = [] then ([], rest) else (ds, more.drop ds.length)
      | rest => ([], rest)
    let (exponent, rest) : Option Int × List Char :=
      match rest with
      | e :: more =>
        if e = 'e' ∨ e = 'E' then
          let (minus, signed) : Bool × List Char :=
            match more with
            | '-' :: r => (true, r)
            | '+' :: r => (false, r)
            | r => (false, r)
          let ds := signed.takeWhile Char.isDigit
          if ds = [] then (none, rest)
          else
            let n : Int := Text.ofDigits ds
            (some (if minus then -n else n), signed.drop ds.length)
        else (none, rest)
      | [] => (none, rest)
    if fraction = [] ∧ exponent = none then
      if Value.maxDigits < whole.length then .error (.longNumber whole.length)
      else
        let n : Int := Text.ofDigits whole
        .ok (.int (if negative then -n else n), rest)
    else
      let c := Text.ofDigits (whole ++ fraction)
      let e := exponent.getD 0 - fraction.length
      .ok (.float (Decimal.finite negative c e).toFloat, rest)

def word? (cs : List Char) : Option (Value × List Char) :=
  let words : List (String × Value) :=
    [("null", .none), ("true", .bool true), ("false", .bool false), ("NaN", .float (0.0 / 0.0)),
      ("Infinity", .float (1.0 / 0.0)), ("-Infinity", .float (-1.0 / 0.0))]
  words.findSome? fun w =>
    if w.1.toList.isPrefixOf cs then some (w.2, cs.drop w.1.length) else none

def elements (value : List Char → Except Stop (Value × List Char)) :
    Nat → List Char → Except Stop (List Value × List Char)
  | 0, cs => .error (.at .value cs.length)
  | fuel + 1, cs => do
    let (v, rest) ← value cs
    match skipBlank rest with
    | ']' :: rest => return ([v], rest)
    | ',' :: rest =>
      let (vs, rest) ← elements value fuel (skipBlank rest)
      return (v :: vs, rest)
    | rest => throw (.at .comma rest.length)

def members (value : List Char → Except Stop (Value × List Char)) :
    Nat → List Char → Except Stop (List (Value × Value) × List Char)
  | 0, cs => .error (.at .propertyName cs.length)
  | fuel + 1, cs => do
    match cs with
    | '"' :: rest =>
      let (name, rest) ← string cs.length (rest.length + 1) rest
      match skipBlank rest with
      | ':' :: rest =>
        let (v, rest) ← value (skipBlank rest)
        let row := (Value.text (String.ofList name), v)
        match skipBlank rest with
        | '}' :: rest => return ([row], rest)
        | ',' :: rest =>
          let (rows, rest) ← members value fuel (skipBlank rest)
          return (row :: rows, rest)
        | rest => throw (.at .comma rest.length)
      | rest => throw (.at .colon rest.length)
    | rest => throw (.at .propertyName rest.length)

def scalar (cs : List Char) : Except Stop (Value × List Char) :=
  match cs with
  | '"' :: rest => do
    let (s, rest) ← string cs.length (rest.length + 1) rest
    return (.text (String.ofList s), rest)
  | cs =>
    match word? cs with
    | some found => .ok found
    | none => number cs

/-- Reads a value in which containers are nested at most `depth` deep. -/
def value : Nat → List Char → Except Stop (Value × List Char)
  | 0, '[' :: _ => .error (.tooDeep .array)
  | 0, '{' :: _ => .error (.tooDeep .object)
  | depth + 1, '[' :: rest =>
    match skipBlank rest with
    | ']' :: rest => .ok (.list [], rest)
    | rest => do
      let (vs, rest) ← elements (value depth) (rest.length + 1) rest
      return (.list vs, rest)
  | depth + 1, '{' :: rest =>
    match skipBlank rest with
    | '}' :: rest => .ok (.map [], rest)
    | rest => do
      let (rows, rest) ← members (value depth) (rest.length + 1) rest
      return (Value.ofRows rows, rest)
  | _, cs => scalar cs

def document (cs : List Char) : Except Stop Value := do
  if cs.head? = some '\ufeff' then throw (.at .byteOrderMark cs.length)
  let (v, rest) ← value maxNesting (skipBlank cs)
  match skipBlank rest with
  | [] => return v
  | rest => throw (.at .extraData rest.length)

def Stop.locate (cs : List Char) : Stop → Fault
  | .at cause left =>
    let position := cs.length - left
    .malformed cause (Text.line cs position) (Text.column cs position) position
  | .longNumber digits => .longNumber digits
  | .tooDeep c => .tooDeep c

def read (cs : List Char) : Except Fault Value :=
  match document cs with
  | .ok v => .ok v
  | .error stop => .error (stop.locate cs)

end Phrasebook.Json
