/-! Searching and cutting texts as lists of characters, so that no cut can fall
inside a character. -/

namespace Pseudocode

def splitFirst? (pattern : List Char) : List Char → Option (List Char × List Char)
  | [] => if pattern.isEmpty then some ([], []) else none
  | c :: cs =>
    if pattern.isPrefixOf (c :: cs) then some ([], (c :: cs).drop pattern.length)
    else (splitFirst? pattern cs).map fun (before, after) => (c :: before, after)

def occursIn (pattern text : String) : Bool := (splitFirst? pattern.toList text.toList).isSome

def withoutSpaces (name : String) : String := String.ofList (name.toList.filter (· ≠ ' '))

/-- What follows the last occurrence of `mark`, all of it if there is none. -/
def afterLast (mark : Char) (cs : List Char) : List Char :=
  (cs.reverse.takeWhile (· ≠ mark)).reverse

/-- The lines of a text. A line feed ends a line, so that the empty text has none
and a final line feed starts no further one. -/
def textLines : List Char → List (List Char)
  | [] => []
  | c :: cs =>
    if c = '\n' then [] :: textLines cs
    else match textLines cs with
      | [] => [[c]]
      | line :: rest => (c :: line) :: rest

end Pseudocode
