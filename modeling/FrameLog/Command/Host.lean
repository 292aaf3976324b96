import FrameLog.Prefix

/-! What commands ask of the system they run on. -/
namespace FrameLog.Command

inductive FileProblem
  | notFound
  | isDirectory
  | notDirectory
  | nameTooLong
  | zeroByte
  | invalidData
  | other (message : String)
deriving DecidableEq, Repr

def FileProblem.message : FileProblem → String
  | .notFound => "No such file or directory"
  | .isDirectory => "Is a directory"
  | .notDirectory => "Not a directory"
  | .nameTooLong => "File name too long"
  | .zeroByte => "file name contained an unexpected NUL byte"
  | .invalidData => "stream did not contain valid UTF-8"
  | .other message => message

class Host (m : Type → Type) where
  readFile : String → m (Except FileProblem Bytes)
  readInput : m (Except FileProblem Bytes)
  /-- Writes the whole of a file, or fails and leaves it as it was. -/
  writeFile : String → Bytes → m (Except FileProblem Unit)
  print : List Char → m Unit

end FrameLog.Command
