import FrameLog.Command.Arguments
import FrameLog.Command.Get
import FrameLog.Command.Pack

/-! The whole program: arguments in, what is printed and how it ends out. -/
namespace FrameLog.Command

inductive Ending
  | done
  | failed (stage : Stage) (cause : Cause)
  | fault (fault : Fault)
  | usage
deriving DecidableEq, Repr

def Ending.code : Ending → Nat
  | .done => 0
  | .failed .. => 1
  | .usage => 2
  | .fault _ => 101

def versionText : String := "shardframe 0.1.0\n"

def helpText : String :=
  "\n".intercalate
    ["Length-prefixed frame buffers with a bucket index", "", "Usage: shardframe [-v] <COMMAND>", "", "Commands:",
      "  pack     -i <FILE> -o <FILE> [--format json|jsonl] [--config <FILE>] [--bucket-size <N>]",
      "           [--capacity <N>] [--factor <X>] [--no-expand] [--progress]",
      "  inspect  -i <FILE> [--bucket-size <N>] [--json]",
      "  get      -i <FILE> --index <N> [--count <N>] [--bucket-size <N>] [--hex]", ""]

variable {m : Type → Type} [Monad m] [Host m]

def Request.run (alloc : Allocator) : Request → Run m Unit
  | .pack input output format options => discard (Command.pack alloc input output format options)
  | .inspect input bucketSize json => discard (Command.inspect alloc input bucketSize json)
  | .get input bucketSize index count hex => discard (Command.get alloc input bucketSize index count hex)

def runProgram (alloc : Allocator) (arguments : List String) : m Ending := do
  match Request.ofArguments arguments with
  | .error .version =>
    Host.print versionText.toList
    return .done
  | .error .help =>
    Host.print helpText.toList
    return .done
  | .error .usage => return .usage
  | .ok request =>
    match ← (request.run alloc).run with
    | .ok () => return .done
    | .error (.failed stage cause) => return .failed stage cause
    | .error (.fault fault) => return .fault fault

end FrameLog.Command
