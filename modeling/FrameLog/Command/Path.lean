import FrameLog.Command.Host

/-! Paths: the steps from one directory to the next that a text stands for. -/
namespace FrameLog.Command

inductive Step
  | stay
  | up
  | enter (name : String)
deriving DecidableEq, Repr

/-- Two slashes in a row are one. -/
def Step.ofName? : String → Option Step
  | "" => none
  | "." => some .stay
  | ".." => some .up
  | name => some (.enter name)

structure Path where
  absolute : Bool
  steps : List Step
  trailingSlash : Bool
deriving DecidableEq, Repr

namespace Path

/-- The longest path, in bytes. -/
def maxSize : Nat := 4095

/-- The longest name in a path, in bytes. -/
def maxNameSize : Nat := 255

def ofString (text : String) : Except FileProblem Path :=
  if text.toList.contains '\x00' then .error .zeroByte
  else if text.isEmpty then .error .notFound
  else if maxSize < text.utf8ByteSize then .error .nameTooLong
  else
    .ok
      { absolute := text.toList.head? = some '/'
        steps := (text.toList.splitOn '/').filterMap fun name => Step.ofName? (.ofList name)
        trailingSlash := text.toList.getLast? = some '/' }

end Path
end FrameLog.Command
