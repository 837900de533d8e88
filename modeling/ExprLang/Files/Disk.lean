import ExprLang.Files.Store

/-! Disks.

    A disk is whatever files can be read from and written to. What is done with files is written
    once for all disks: for the store in memory, and for the one that a program runs on. Whether
    there is something at a path is asked by reading it: a directory is what cannot be read for
    being one. -/

namespace ExprLang.Files

/-- What can be done on a disk. -/
structure Disk (m : Type → Type) where
  read : String → m (Except Reason (List UInt8))
  write : String → List UInt8 → m (Except Unwritten Unit)
  makeDirectory : String → m (Except Reason Unit)

namespace Disk

/-- A change of a store that may be refused. -/
def change (f : Store → Except Reason Store) : StateM Store (Except Reason Unit) := fun s =>
  match f s with
  | .ok s' => (.ok (), s')
  | .error r => (.error r, s)

/-- The disk that is a store in memory. -/
def ofStore : Disk (StateM Store) where
  read path := fun s => (s.read path, s)
  write path bytes := fun s => s.write path bytes
  makeDirectory path := change fun s => s.makeDirectory path

variable {m : Type → Type} [Monad m]

/-- The fault of a path for which the system gave a reason. -/
def faultOf {α : Type} (path : String) (r : Except Reason α) : Except Fault α :=
  r.mapError fun reason => .system reason path

/-- What the file at a path holds. -/
def readFile (disk : Disk m) (path : String) : m (Except Fault (List UInt8)) := do
  if Path.hasNul path then pure (.error .nul)
  else
    let r ← disk.read path
    pure (faultOf path r)

/-- Writes the file at a path. -/
def writeFile (disk : Disk m) (path : String) (text : String) : m (Except Fault Unit) := do
  if Path.hasNul path then pure (.error .nul)
  else
    let r ← disk.write path (Text.Utf8.encode text)
    pure (r.mapError (Unwritten.fault path))

/-- There is a directory at a path. -/
def isDirectory (disk : Disk m) (path : String) : m Bool := do
  match ← disk.readFile path with
  | .error (.system .isDirectory _) => pure true
  | _ => pure false

/-- There is something at a path. -/
def isThere (disk : Disk m) (path : String) : m Bool := do
  match ← disk.readFile path with
  | .ok _ | .error (.system .isDirectory _) => pure true
  | _ => pure false

/-- Makes the directory at a path; it may be there already. -/
def ensureDirectory (disk : Disk m) (path : String) : m (Except Fault Unit) := do
  if Path.hasNul path then pure (.error .nul)
  else
    match ← disk.makeDirectory path with
    | .ok _ => pure (.ok ())
    | .error reason =>
      let there ← disk.isDirectory path
      if there then pure (.ok ()) else pure (.error (.system reason path))

/-- Makes the directory at a path and those on the way to it. Of the steps up, at most `fuel` are
    taken; a path has no more of them than characters. -/
def ensureDirectories (disk : Disk m) : (fuel : Nat) → String → m (Except Fault Unit)
  | 0, path => disk.ensureDirectory path
  | fuel + 1, path => do
    let (head, tail) :=
      match Path.split path with
      | (head, "") => Path.split head
      | parts => parts
    let there ← if head = "" || tail = "" then pure true else disk.isThere head
    if there then disk.ensureDirectory path
    else
      match ← disk.ensureDirectories fuel head with
      | .ok _ | .error (.system .alreadyExists _) =>
        if tail = "." then pure (.ok ()) else disk.ensureDirectory path
      | .error f => pure (.error f)

/-- Makes the directory that holds what a path names. -/
def ensureParent (disk : Disk m) (path : String) : m (Except Fault Unit) :=
  let parent := Path.directory path
  if parent = "" then pure (.ok ()) else disk.ensureDirectories parent.length parent

end Disk
end ExprLang.Files
