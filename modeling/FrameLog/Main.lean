import FrameLog.Command.Program

/-! The program on the system it is started on. -/
namespace FrameLog.Command

def FileProblem.ofError : IO.Error → FileProblem
  | .noFileOrDirectory .. => .notFound
  | .inappropriateType .. => .isDirectory
  | e => .other (toString e)

def attempt {α : Type} (act : IO α) : IO (Except FileProblem α) := do
  try return .ok (← act)
  catch e => return .error (.ofError e)

instance : Host IO where
  readFile path := attempt do return (← IO.FS.readBinFile path).toList
  readInput := attempt do return (← (← IO.getStdin).readBinToEnd).toList
  writeFile path content := attempt (IO.FS.writeBinFile path ⟨content.toArray⟩)
  print text := do
    (← IO.getStdout).putStr (String.ofList text)

def Ending.report : Ending → Option String
  | .done => none
  | .failed stage cause => some s!"Error: {stage.message}\n\nCaused by:\n    {cause.message}"
  | .fault _ => some "Error: out of memory"
  | .usage => some helpText

end FrameLog.Command

def main (arguments : List String) : IO UInt32 := do
  let ending ← FrameLog.Command.runProgram (fun _ => true) arguments
  if let some message := ending.report then IO.eprintln message
  return ending.code.toUInt32
