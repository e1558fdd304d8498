import Phrasebook.Pattern.Token

/-!
Choosing a language. A request is any text; its candidates are the tags in it. A candidate that is
available as written wins, then a candidate cut back at a hyphen, then an entry of the fallback
chain, each in order. Tags are compared letter by letter.
-/

namespace Phrasebook.Language

open Pattern (isWord)

/-- Words joined by single hyphens, from left to right. `tag` is what has been read of a tag, and
`hyphen` says that a hyphen stands behind it. -/
def scan (tag : List Char) (hyphen : Bool) : List Char → List (List Char)
  | [] => if tag = [] then [] else [tag]
  | c :: cs =>
    if isWord c then scan (tag ++ (if hyphen then ['-', c] else [c])) false cs
    else if c = '-' ∧ tag ≠ [] ∧ !hyphen then scan tag true cs
    else if tag = [] then scan [] false cs
    else tag :: scan [] false cs

def candidates (requested : String) : List String :=
  (scan [] false requested.toList).map String.ofList

/-- What stands before each hyphen of a tag, the longest first. -/
def shorterTags : List Char → List (List Char)
  | [] => []
  | c :: cs => (shorterTags cs).map (c :: ·) ++ (if c = '-' then [[]] else [])

def truncations (tag : String) : List String :=
  (shorterTags tag.toList).map String.ofList

def preferences (requested : String) (chain : List String) : List String :=
  let tags := candidates requested
  tags ++ tags.flatMap truncations ++ chain

def resolve (requested : String) (available chain : List String) : Option String :=
  (preferences requested chain).find? (· ∈ available)

def defaultChain : List String := ["*", "i-default", "en", "en-US"]

end Phrasebook.Language
