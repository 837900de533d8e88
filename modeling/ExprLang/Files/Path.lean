/-! Paths.

    The parts of a path stand between slashes. Empty parts mean nothing, but a slash in front makes
    a path start at the root, and a slash behind asks for a directory. -/

namespace ExprLang.Files.Path

/-- A path cut at its slashes. -/
def cut : List Char → List (List Char)
  | [] => [[]]
  | c :: cs =>
    if c = '/' then [] :: cut cs
    else
      match cut cs with
      | [] => [[c]]
      | part :: parts => (c :: part) :: parts

/-- The parts of a path that are not empty. -/
def parts (path : String) : List String :=
  ((cut path.toList).filter fun part => !part.isEmpty).map String.ofList

/-- A path that starts at the root. -/
def isAbsolute (path : String) : Bool := path.toList.head? == some '/'

/-- A path that asks for a directory. -/
def endsInSlash (path : String) : Bool := path.toList.getLast? == some '/'

/-- A path with a NUL in it. -/
def hasNul (path : String) : Bool := path.toList.contains '\x00'

/-- A text without the slashes that it ends in, unless there is nothing else in it. -/
def trimSlashes (cs : List Char) : List Char :=
  let trimmed := (cs.reverse.dropWhile (· == '/')).reverse
  if trimmed.isEmpty then cs else trimmed

/-- What stands behind the last slash of a path, and what stands in front of it. -/
def split (path : String) : String × String :=
  let back := path.toList.reverse
  let tail := (back.takeWhile (· != '/')).reverse
  let head := (back.dropWhile (· != '/')).reverse
  (String.ofList (trimSlashes head), String.ofList tail)

/-- The directory that holds what a path names; empty for the working directory. -/
def directory (path : String) : String := (split path).1

end ExprLang.Files.Path
