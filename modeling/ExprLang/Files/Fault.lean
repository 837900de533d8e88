import ExprLang.Text.Quoted

/-! What can go wrong with a file.

    A system gives the reason for a fault as a number and a text. If the file was not even opened,
    the path that was asked for stands behind it. A path with a NUL in it is no path, and no system
    is asked for it. Where a file is made by something else than the system, that may fail in ways
    of its own. -/

namespace ExprLang.Files

/-- The reasons that a system gives. -/
inductive Reason where
  | notFound
  | alreadyExists
  | notDirectory
  | isDirectory
  | nameTooLong
  | other (number : Nat) (text : String)
  deriving DecidableEq, Repr

/-- The number of a reason. -/
def Reason.number : Reason → Nat
  | notFound => 2
  | alreadyExists => 17
  | notDirectory => 20
  | isDirectory => 21
  | nameTooLong => 36
  | other n _ => n

/-- The wording of a reason. -/
def Reason.text : Reason → String
  | notFound => "No such file or directory"
  | alreadyExists => "File exists"
  | notDirectory => "Not a directory"
  | isDirectory => "Is a directory"
  | nameTooLong => "File name too long"
  | other _ s => s

/-- A reason as it is reported. -/
def Reason.message (r : Reason) : String := "[Errno " ++ toString r.number ++ "] " ++ r.text

/-- Why bytes were not written to a file: it was not opened, or no more of them could be written. -/
inductive Unwritten where
  | refused (reason : Reason)
  | stopped (reason : Reason)
  deriving DecidableEq, Repr

/-- Why something was not done to a file or a directory. The program that makes a file may be
    missing, and what else it fails with is `foreign`. -/
inductive Fault where
  | system (reason : Reason) (path : String)
  | stopped (reason : Reason)
  | nul
  | noProgram (text : String)
  | foreign (text : String)
  deriving DecidableEq, Repr

namespace Fault

/-- The wording of a fault. -/
def message : Fault → String
  | system r path => r.message ++ ": " ++ Text.quoted path
  | stopped r => r.message
  | nul => "embedded null byte"
  | noProgram s | foreign s => s

/-- A fault of the system or the lack of a program, which is answered where it occurs. -/
def isAnswered : Fault → Bool
  | system _ _ | stopped _ | noProgram _ => true
  | nul | foreign _ => false

end Fault

/-- The fault of a file that was not written. -/
def Unwritten.fault (path : String) : Unwritten → Fault
  | refused r => .system r path
  | stopped r => .stopped r

end ExprLang.Files
