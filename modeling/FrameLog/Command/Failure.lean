import FrameLog.Command.Host
import FrameLog.Config
import FrameLog.Json.Value
import FrameLog.Text.Utf8

/-! How a command fails: the stage it was at and the cause, and the wording of both. -/
namespace FrameLog

def BadArgument.message : BadArgument → String
  | .zeroBucketSize => "bucket size must be greater than zero"
  | .capacityPastLimit capacity => s!"initial capacity {capacity} exceeds maximum {maxAllocation}"
  | .factorNotAboveOne factor =>
    "expansion factor must be a finite number > 1.0, got " ++
      String.ofList (Decimal.text .single Expansion.messageLayout factor)
  | .dataPastBuffer length capacity => s!"declared data length {length} exceeds buffer capacity {capacity}"
  | .emptyRange => "range count must be greater than zero"
  | .destinationTooSmall room needed => s!"destination too small: {room} < {needed}"

def Refusal.message : Refusal → String
  | .outOfRange index length => s!"Index {index} out of range for length {length}"
  | .badArgument reason => s!"Invalid argument: {reason.message}"
  | .outOfMemory required capacity =>
    s!"Out of memory: {required} bytes required, buffer capacity is {capacity}"
  | .frameTooLarge size => s!"Frame of {size} bytes exceeds the 32-bit length field"
  | .corruptFrame offset => s!"Corrupt frame header at offset {offset}"
  | .disposed => "Frame store has been disposed"

namespace Command

inductive Stage
  | readConfig (path : String)
  | parseConfig (path : String)
  | validateConfig
  | readFile (path : String)
  | readInput
  | decodeInput
  | parseArray
  | parseLine (number : Nat)
  | createStore
  | appendFrame (index : Nat)
  | readBack
  | writeOutput (path : String)
  | rebuildIndex (path : String)
  | selectFrames (start stop count : Nat)
deriving DecidableEq, Repr

def Stage.message : Stage → String
  | .readConfig path => s!"Failed to read config file: {path}"
  | .parseConfig path => s!"Failed to parse config file: {path}"
  | .validateConfig => "Invalid store configuration"
  | .readFile path => s!"Failed to read input file: {path}"
  | .readInput => "Failed to read stdin"
  | .decodeInput => "Input is not valid UTF-8"
  | .parseArray => "Failed to parse JSON input as an array"
  | .parseLine number => s!"Failed to parse JSON on line {number}"
  | .createStore => "Failed to create frame store"
  | .appendFrame index => s!"Failed to append frame {index}"
  | .readBack => "Failed to read back store contents"
  | .writeOutput path => s!"Failed to write output file: {path}"
  | .rebuildIndex path => s!"Failed to rebuild frame index for {path}"
  | .selectFrames start stop count => s!"Frames {start}..{stop} out of range ({count} frames in store)"

inductive Cause
  | store (refusal : Refusal)
  | json (problem : Json.Problem)
  | file (problem : FileProblem)
  | text (error : Utf8.Error)
deriving DecidableEq, Repr

def Cause.message : Cause → String
  | .store refusal => refusal.message
  | .json .malformed => "malformed JSON"
  | .json .mismatched => "JSON of another type"
  | .json .truncated => "JSON that ends too early"
  | .file problem => problem.message
  | .text error => error.message

inductive Stop
  | failed (stage : Stage) (cause : Cause)
  | fault (fault : Fault)
deriving DecidableEq, Repr

abbrev Run (m : Type → Type) := ExceptT Stop m

variable {m : Type → Type} [Monad m] {α : Type}

def atStage (stage : Stage) : Outcome α → Except Stop α
  | .ok a => .ok a
  | .error (.refused refusal) => .error (.failed stage (.store refusal))
  | .error (.fault fault) => .error (.fault fault)

/-- What only a defect can make fail. -/
def unfailing : Outcome α → Except Stop α := atStage .readBack

instance : MonadLift (Except Stop) (ExceptT Stop m) := ⟨fun x => ExceptT.mk (pure x)⟩

def request (stage : Stage) (ask : m (Except FileProblem α)) : Run m α :=
  ExceptT.mk do
    match ← ask with
    | .ok a => return .ok a
    | .error problem => return .error (.failed stage (.file problem))

variable [Host m]

/-- The bytes of a file, or of the standard input for `-`. -/
def readSource (path : String) : Run m Bytes :=
  if path = "-" then request .readInput Host.readInput else request (.readFile path) (Host.readFile path)

def print (text : List Char) : Run m Unit := ExceptT.mk do
  Host.print text
  return .ok ()

end Command
end FrameLog
