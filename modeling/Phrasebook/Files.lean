import Phrasebook.Document
import Phrasebook.Document.Json
import Phrasebook.Document.Utf8

/-!
Lexicons in files. The file of a tag is named by the location, the tag and a suffix, put together.
Paths are resolved by their text alone: `.` stays, `..` goes up, and going up from the root stays
there. A file outside the root directory of the loader is never read.
-/

namespace Phrasebook.Files

/-- The names on the way from the root. -/
abbrev Path := List String

/-- The parts between slashes; there is one more than there are slashes. -/
def segments : List Char → List (List Char)
  | [] => [[]]
  | c :: cs =>
    if c = '/' then [] :: segments cs
    else
      match segments cs with
      | [] => [[c]]
      | part :: parts => (c :: part) :: parts

/-- The names in the text of a path, without those that stay in place. -/
def names (s : String) : List String :=
  ((segments s.toList).filter fun part => part ≠ [] ∧ part ≠ ['.']).map String.ofList

def isAbsolute (s : String) : Bool := s.toList.head? = some '/'

def Path.enter (p : Path) (name : String) : Path :=
  if name = ".." then p.dropLast else p ++ [name]

def follow (start : Path) (steps : List String) : Path := steps.foldl Path.enter start

def stations (start : Path) : List String → List Path
  | [] => [start]
  | name :: steps => start :: stations (start.enter name) steps

def origin (current : Path) (s : String) : Path := if isAbsolute s then [] else current

def resolve (current : Path) (s : String) : Path := follow (origin current s) (names s)

/-- The directory that a path names its last part in. -/
def resolveParent (current : Path) (s : String) : Path :=
  follow (origin current s) (names s).dropLast

def Path.text (p : Path) : String := "/" ++ String.intercalate "/" p

structure FileSystem where
  current : Path
  /-- A file written later stands behind an earlier one of the same path. -/
  files : List (Path × List UInt8)
  /-- Each of them stands for the directories above it too. -/
  directories : List Path

namespace FileSystem

/-- Writes files in turn, and makes the directories on the way to each as the way names them, also
those that it leaves again. -/
def ofFiles (current : Path) (files : List (String × List UInt8)) : FileSystem where
  current := current
  files := files.map fun f => (resolve current f.1, f.2)
  directories := current ::
    files.flatMap fun f => stations (origin current f.1) (names f.1).dropLast

def content? (fs : FileSystem) (p : Path) : Option (List UInt8) :=
  (fs.files.reverse.find? (·.1 = p)).map Prod.snd

def isDirectory (fs : FileSystem) (p : Path) : Bool := fs.directories.any (p.isPrefixOf ·)

/-- A file stands where the path needs a directory. -/
def isBlocked (fs : FileSystem) (p : Path) : Bool :=
  fs.files.any fun f => f.1.isPrefixOf p && p ≠ f.1

def missingName? (fs : FileSystem) (start : Path) : List String → Option String
  | [] => none
  | name :: steps =>
    if fs.isDirectory (start ++ [name]) then fs.missingName? (start ++ [name]) steps
    else some name

end FileSystem

/-- No name can be longer, in bytes. -/
def maxNameSize : Nat := 255

def maxPathSize : Nat := 4095

inductive Fault where
  | emptyTag
  | traversal (tag : String)
  | separator (tag : String)
  | outside (tag : String)
  /-- A path holds the character that ends paths. -/
  | nulCharacter
  | nameTooLong (path : Path)
  | notFound (path : Path)
  | isDirectory (path : Path)
  | notDirectory (path : Path)
  | encoding (f : Utf8.Fault)
  | json (f : Json.Fault)
  | document (f : Document.Fault)
  deriving DecidableEq, Repr

def Fault.message : Fault → String
  | emptyTag => "Language tag cannot be empty"
  | traversal tag => "Path traversal sequences not allowed in tag: '" ++ tag ++ "'"
  | separator tag => "Path separators not allowed in tag: '" ++ tag ++ "'"
  | outside tag =>
    "Path traversal detected: resolved path escapes root directory. tag='" ++ tag ++ "'"
  | nulCharacter => "lstat: embedded null character in path"
  | nameTooLong path => "[Errno 36] File name too long: " ++ Text.quoted path.text
  | notFound path => "[Errno 2] No such file or directory: " ++ Text.quoted path.text
  | isDirectory path => "[Errno 21] Is a directory: " ++ Text.quoted path.text
  | notDirectory path => "[Errno 20] Not a directory: " ++ Text.quoted path.text
  | encoding f => f.message
  | json f => f.message
  | document f => f.message

def hasDots : List Char → Bool
  | '.' :: '.' :: _ => true
  | _ :: cs => hasDots cs
  | [] => false

def checkTag (tag : String) : Except Fault Unit :=
  if tag = "" then .error .emptyTag
  else if hasDots tag.toList then .error (.traversal tag)
  else if '/' ∈ tag.toList ∨ '\\' ∈ tag.toList then .error (.separator tag)
  else .ok ()

structure Loader where
  suffix : String
  /-- The root directory, if it is not the directory part of the location. -/
  root : Option String
  deriving DecidableEq, Repr

namespace Loader

def defaultSuffix : String := ".json"

def describe (l : Loader) (tag location : String) : String := location ++ tag ++ l.suffix

/-- A location that does not end in a separator ends in the first part of the file names. -/
def rootPath (l : Loader) (current : Path) (location : String) : Path :=
  match l.root with
  | some root => resolve current root
  | none =>
    match location.toList.getLast? with
    | none => current
    | some c =>
      if c = '/' ∨ c = '\\' then resolve current location else resolveParent current location

def hasNul (s : String) : Bool := '\x00' ∈ s.toList

def locate (l : Loader) (current : Path) (tag location : String) : Except Fault Path := do
  checkTag tag
  if hasNul (l.describe tag location) || l.root.any hasNul then throw .nulCharacter
  let path := resolve current (l.describe tag location)
  if (l.rootPath current location).isPrefixOf path then return path
  else throw (.outside tag)

/-- The size of a path is looked at first, that of a name where it is looked up. -/
def readBytes (fs : FileSystem) (path : Path) : Except Fault (List UInt8) :=
  if maxPathSize < path.text.utf8ByteSize then .error (.nameTooLong path)
  else
    match fs.content? path with
    | some bytes => .ok bytes
    | none =>
      if fs.isDirectory path then .error (.isDirectory path)
      else if fs.isBlocked path then .error (.notDirectory path)
      else if (fs.missingName? [] path).any (maxNameSize < ·.utf8ByteSize) then
        .error (.nameTooLong path)
      else .error (.notFound path)

def load (l : Loader) (fs : FileSystem) (tag location : String) : Except Fault Resource := do
  let path ← l.locate fs.current tag location
  let bytes ← readBytes fs path
  let text ← (Utf8.decode bytes).mapError Fault.encoding
  let document ← (Json.read (Utf8.unifyLines text)).mapError Fault.json
  (Document.read document).mapError Fault.document

end Loader

end Phrasebook.Files
