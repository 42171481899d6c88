/-!
# The texts of file paths

A path is a text whose segments are separated by slashes.  It is kept as it was written; only the
end of a path is tidied when its parent is taken.
-/

namespace StateFlow.Location

/-- The segments of a path; a slash at an end has an empty segment beside it. -/
def segments : List Char → List (List Char)
  | [] => [[]]
  | c :: cs =>
    if c = '/' then [] :: segments cs
    else match segments cs with
      | [] => [[c]]
      | s :: ss => (c :: s) :: ss

/-- True of a path that starts at the root. -/
def isAbsolute (path : String) : Bool := path.toList.head? = some '/'

/-- The reverse of a path, without slashes and segments of one point at the end of the path.  A root
and a point at the start of the path stay. -/
def tidyReversed : List Char → List Char
  | ['/'] => ['/']
  | '/' :: cs => tidyReversed cs
  | '.' :: '/' :: cs => tidyReversed ('/' :: cs)
  | cs => cs

/-- The directory that a path lies in, empty for a path of one segment; the root lies in none. -/
def parent? (path : String) : Option String :=
  match tidyReversed path.toList.reverse with
  | [] | ['/'] => none
  | cs => some (String.ofList (tidyReversed (cs.dropWhile (· ≠ '/'))).reverse)

/-- A path seen from a directory. -/
def join (base path : String) : String :=
  if isAbsolute path || base.isEmpty then path
  else if base.toList.getLast? = some '/' then base ++ path
  else base ++ "/" ++ path

end StateFlow.Location
