import ExprLang.Files.Fault
import ExprLang.Files.Path
import ExprLang.Text.Utf8

/-! Files in memory.

    A store holds files and directories by their place, which is the list of names from the working
    directory down. A place that goes up begins with as many `..`; of what is there nothing is
    known but that the directories themselves exist, and the same holds of the root. A path is
    followed name by name, so that the first name that cannot be followed gives the reason. A file
    that is opened for writing is emptied first, and it may then be given fewer bytes than there
    are. -/

namespace ExprLang.Files

/-- Where a file or a directory is: the names from the working directory down. -/
abbrev Place := List String

/-- The files of a working directory, and the directories below it. There may be a limit to the
    bytes that can be written to a file, with the reason why there can be no more. -/
structure Store where
  files : List (Place × List UInt8)
  directories : List Place
  limit : Option (Nat × Reason)
  deriving DecidableEq, Repr

namespace Store

/-- The store without any file. -/
def empty : Store := ⟨[], [], none⟩

/-- A place at or above the working directory, or the root. -/
def isOutside (place : Place) : Bool := place == ["/"] || place.all (· == "..")

/-- There is a directory at a place. -/
def hasDirectory (s : Store) (place : Place) : Bool :=
  isOutside place || s.directories.contains place

/-- What the file at a place holds. -/
def contents? (s : Store) (place : Place) : Option (List UInt8) := s.files.lookup place

/-- There is something at a place. -/
def has (s : Store) (place : Place) : Bool := s.hasDirectory place || (s.contents? place).isSome

/-- The place one level up. -/
def up (place : Place) : Place :=
  if place == ["/"] then place
  else if place.all (· == "..") then place ++ [".."]
  else place.dropLast

/-- The longest name that a file can have, in bytes. -/
def maxName : Nat := 255

/-- The bytes that a path has at most, with one more that ends it. -/
def maxPath : Nat := 4096

/-- Where a name leads from a directory. -/
def down (place : Place) (name : String) : Place :=
  if name = "." then place else if name = ".." then up place else place ++ [name]

/-- A name that leads to a directory known already. -/
def isStep (name : String) : Bool := name == "." || name == ".."

/-- Where a name leads from a place, whether there is anything or not. -/
def locate (s : Store) (place : Place) (name : String) : Except Reason Place :=
  if !s.hasDirectory place then .error .notDirectory
  else if maxName < name.utf8ByteSize then .error .nameTooLong
  else .ok (down place name)

/-- Where a name leads from a place, if there is anything. -/
def enter (s : Store) (place : Place) (name : String) : Except Reason Place := do
  let next ← s.locate place name
  if s.has next then pure next else throw .notFound

/-- Where a path starts. -/
def origin (path : String) : Place := if Path.isAbsolute path then ["/"] else []

/-- Refuses the paths that nothing can have. -/
def checkPath (path : String) : Except Reason Unit :=
  if path = "" then .error .notFound
  else if maxPath ≤ path.utf8ByteSize then .error .nameTooLong
  else .ok ()

/-- Where a path leads. -/
def find (s : Store) (path : String) : Except Reason Place := do
  checkPath path
  let place ← (Path.parts path).foldlM s.enter (origin path)
  if Path.endsInSlash path && !s.hasDirectory place then throw .notDirectory
  pure place

/-- The directory for what a path names, and its name there. The name is `none` for a path that
    ends in no name of its own. -/
def findParent (s : Store) (path : String) : Except Reason (Place × Option String) := do
  checkPath path
  let parts := Path.parts path
  let place ← parts.dropLast.foldlM s.enter (origin path)
  if !s.hasDirectory place then throw .notDirectory
  match parts.getLast? with
  | some name => pure (place, if isStep name then none else some name)
  | none => pure (place, none)

/-- Files with the one at a place put in place of another, or added behind. -/
def put (place : Place) (bytes : List UInt8) :
    List (Place × List UInt8) → List (Place × List UInt8)
  | [] => [(place, bytes)]
  | f :: fs => if f.1 == place then (place, bytes) :: fs else f :: put place bytes fs

/-- What the file at a path holds. -/
def read (s : Store) (path : String) : Except Reason (List UInt8) := do
  let place ← s.find path
  match s.contents? place with
  | some bytes => pure bytes
  | none => throw .isDirectory

/-- Where a file is opened that is to be written at a path. -/
def target (s : Store) (path : String) : Except Reason Place := do
  match ← s.findParent path with
  | (_, none) => throw .isDirectory
  | (parent, some name) =>
    if Path.endsInSlash path then throw .isDirectory
    let place ← s.locate parent name
    if s.hasDirectory place then throw .isDirectory
    pure place

/-- The store with a file at a place. -/
def withFile (s : Store) (place : Place) (bytes : List UInt8) : Store :=
  { s with files := put place bytes s.files }

/-- Writes a file at a path, as far as the limit goes. -/
def write (s : Store) (path : String) (bytes : List UInt8) : Except Unwritten Unit × Store :=
  match s.target path with
  | .error reason => (.error (.refused reason), s)
  | .ok place =>
    match s.limit with
    | none => (.ok (), s.withFile place bytes)
    | some (room, reason) =>
      if bytes.length ≤ room then (.ok (), s.withFile place bytes)
      else (.error (.stopped reason), s.withFile place (bytes.take room))

/-- The store with a directory at a path. -/
def makeDirectory (s : Store) (path : String) : Except Reason Store := do
  match ← s.findParent path with
  | (_, none) => throw .alreadyExists
  | (parent, some name) =>
    let place ← s.locate parent name
    if s.has place then throw .alreadyExists
    pure { s with directories := s.directories ++ [place] }

/-- The store with a directory at a place. -/
def addDirectory (s : Store) (place : Place) : Store :=
  if s.hasDirectory place then s else { s with directories := s.directories ++ [place] }

/-- The store with a file where some names lead from a place, and with the directories that they
    lead through. -/
def addFile (s : Store) (place : Place) (bytes : List UInt8) : List String → Store
  | [] => s
  | [name] => s.withFile (down place name) bytes
  | name :: names => (s.addDirectory (down place name)).addFile (down place name) bytes names

/-- The store of some files, each at its path, with the directories that the path leads through. -/
def ofFiles (files : List (String × List UInt8)) : Store :=
  files.foldl (fun s f => s.addFile [] f.2 (Path.parts f.1)) empty

/-- A place below the working directory. -/
def isInside (place : Place) : Bool :=
  match place with
  | [] => false
  | name :: _ => name != "/" && name != ".."

/-- The files of the working directory that are not as they were in an earlier store, each with its
    path. -/
def changedSince (s earlier : Store) : List (String × List UInt8) :=
  (s.files.filter fun f => isInside f.1 && earlier.contents? f.1 != some f.2).map fun f =>
    ("/".intercalate f.1, f.2)

end Store
end ExprLang.Files
