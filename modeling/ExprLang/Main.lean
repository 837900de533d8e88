import ExprLang.Dot.SourceOnly
import ExprLang.Session

/-! The program.

    The arguments are carried out on the disk that the program runs on; what a session printed and
    logged is written out when it has ended. -/

namespace ExprLang.Program

open ExprLang.Files

/-- The reason that the system gives by a number. -/
def reasonOf (number : UInt32) (text : String) : Reason :=
  match number.toNat with
  | 2 => .notFound
  | 17 => .alreadyExists
  | 20 => .notDirectory
  | 21 => .isDirectory
  | 36 => .nameTooLong
  | n => .other n text

/-- The reason for an error of the system. -/
def reason : IO.Error → Reason
  | .noFileOrDirectory .. => .notFound
  | .interrupted _ n s | .alreadyExists _ n s | .inappropriateType _ n s | .invalidArgument _ n s
  | .permissionDenied _ n s | .resourceExhausted _ n s | .noSuchThing _ n s => reasonOf n s
  | .otherError n s | .resourceBusy n s | .hardwareFault n s | .unsupportedOperation n s =>
    reasonOf n s
  | e => .other 0 (toString e)

/-- What an action on files gives, or the reason why it fails. -/
def attempt {α : Type} (x : IO α) : IO (Except Reason α) := do
  try
    let a ← x
    pure (.ok a)
  catch e => pure (.error (reason e))

/-- Writes a file, which is opened and thereby emptied first. -/
def write (path : String) (bytes : List UInt8) : IO (Except Unwritten Unit) := do
  match ← attempt (IO.FS.Handle.mk path .write) with
  | .error reason => pure (.error (.refused reason))
  | .ok handle =>
    let r ← attempt do
      handle.write ⟨bytes.toArray⟩
      handle.flush
    pure (r.mapError .stopped)

/-- The disk that the program runs on. -/
def disk : Disk IO where
  read path := attempt do
    let bytes ← IO.FS.readBinFile path
    pure bytes.toList
  write := write
  makeDirectory path := attempt (IO.FS.createDir path)

/-- No other program is run, so the source of a graph is all that is made of it. -/
def renderer : Renderer IO := .sourceOnly disk

end ExprLang.Program

/-- Carries out the arguments and ends with the status of the session. -/
def main (args : List String) : IO UInt32 := do
  let report ← ExprLang.Session.run ExprLang.Program.disk ExprLang.Program.renderer args
  IO.print report.console.out
  IO.eprint report.console.err
  match report.ending with
  | .status code => pure code.toUInt32
  | .raised failure => do
    IO.eprintln failure.message
    pure 1
