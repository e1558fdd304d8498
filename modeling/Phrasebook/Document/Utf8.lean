/-!
Reading UTF-8. The first byte sequence that is not well formed is reported with the bytes that
could have belonged to one character.
-/

namespace Phrasebook.Utf8

inductive Reason where
  | badStart
  | badContinuation
  | unexpectedEnd
  deriving DecidableEq, Repr

def Reason.text : Reason → String
  | badStart => "invalid start byte"
  | badContinuation => "invalid continuation byte"
  | unexpectedEnd => "unexpected end of data"

structure Fault where
  byte : Nat
  position : Nat
  length : Nat
  reason : Reason
  deriving DecidableEq, Repr

def Fault.message (f : Fault) : String :=
  let digits := Nat.toDigits 16 f.byte
  let place :=
    if f.length = 1 then
      "byte 0x" ++ String.ofList (List.replicate (2 - digits.length) '0' ++ digits) ++
        " in position " ++ toString f.position
    else
      "bytes in position " ++ toString f.position ++ "-" ++
        toString (f.position + f.length - 1)
  "'utf-8' codec can't decode " ++ place ++ ": " ++ f.reason.text

def isContinuation (b : Nat) : Bool := 0x80 ≤ b && b < 0xc0

/-- Whether `b` may follow the first byte `a`: overlong forms, surrogates and numbers that are too
large are excluded here. -/
def isSecond (a b : Nat) : Bool :=
  isContinuation b && (a ≠ 0xe0 || 0xa0 ≤ b) && (a ≠ 0xed || b < 0xa0) &&
    (a ≠ 0xf0 || 0x90 ≤ b) && (a ≠ 0xf4 || b < 0x90)

def width (a : Nat) : Option Nat :=
  if a < 0x80 then some 1
  else if 0xc2 ≤ a && a < 0xe0 then some 2
  else if 0xe0 ≤ a && a < 0xf0 then some 3
  else if 0xf0 ≤ a && a < 0xf5 then some 4
  else none

def goodBytes (a : Nat) : Nat → List Nat → Nat
  | i, b :: bs =>
    if (if i = 0 then isSecond a b else isContinuation b) then goodBytes a (i + 1) bs + 1 else 0
  | _, [] => 0

def payload (a width : Nat) : Nat :=
  match width with
  | 1 => a
  | 2 => a % 0x20
  | 3 => a % 0x10
  | _ => a % 0x08

/-- Reads the characters of `bytes`, of which the first `skip` belong to a character that has been
read already. -/
def decodeFrom (position skip : Nat) : List Nat → Except Fault (List Char)
  | [] => .ok []
  | a :: bs =>
    match skip with
    | k + 1 => decodeFrom (position + 1) k bs
    | 0 =>
      match width a with
      | none => .error ⟨a, position, 1, .badStart⟩
      | some n =>
        let more := bs.take (n - 1)
        let good := goodBytes a 0 more
        if good < more.length then .error ⟨a, position, good + 1, .badContinuation⟩
        else if good < n - 1 then .error ⟨a, position, good + 1, .unexpectedEnd⟩
        else
          let code := more.foldl (fun x b => 64 * x + b % 64) (payload a n)
          match decodeFrom (position + 1) (n - 1) bs with
          | .ok cs => .ok (Char.ofNat code :: cs)
          | .error f => .error f

def decode (bytes : List UInt8) : Except Fault (List Char) :=
  decodeFrom 0 0 (bytes.map UInt8.toNat)

/-- Carriage returns, alone or before a line feed, end lines like line feeds. -/
def unifyLines : List Char → List Char
  | '\r' :: '\n' :: cs => '\n' :: unifyLines cs
  | '\r' :: cs => '\n' :: unifyLines cs
  | c :: cs => c :: unifyLines cs
  | [] => []

end Phrasebook.Utf8
