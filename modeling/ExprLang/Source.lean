import ExprLang.Failure
import ExprLang.Files.Disk
import ExprLang.Text.Newline

/-! Sources in files.

    A source is a file of UTF-8 text in which any line end counts as a newline. A file that cannot
    be read, or that is no such text, is reported with its path. -/

namespace ExprLang

/-- A text and the path that it was read from. -/
structure Source where
  path : String
  text : String
  deriving DecidableEq, Repr

namespace Source

/-- The report that the source at a path cannot be read. -/
def unreadable (path reason : String) : Failure :=
  .reported ⟨.unreadable path reason, Position.unknown⟩

/-- The source that the bytes of a file spell. -/
def ofBytes (path : String) (bytes : List UInt8) : Except Failure Source :=
  match Text.Utf8.decode bytes with
  | .ok cs => .ok ⟨path, String.ofList (Text.normalizeNewlines cs)⟩
  | .error fault => .error (unreadable path fault.message)

/-- The source in the file at a path. -/
def read {m : Type → Type} [Monad m] (disk : Files.Disk m) (path : String) :
    m (Except Failure Source) := do
  match ← disk.readFile path with
  | .ok bytes => pure (ofBytes path bytes)
  | .error (.system reason p) => pure (.error (unreadable path (Files.Fault.system reason p).message))
  | .error fault => pure (.error (.file fault))

end Source
end ExprLang
