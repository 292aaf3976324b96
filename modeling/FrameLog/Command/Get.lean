import FrameLog.Command.Inspect
import FrameLog.Store.Read

/-! Printing frames of a packed file as text or as hexadecimal digits. -/
namespace FrameLog

namespace Bytes

def hexDigit (n : Nat) : Char := "0123456789abcdef".toList.getD n '0'

/-- Two lowercase hexadecimal digits for each byte. -/
def hex (bytes : Bytes) : List Char :=
  bytes.flatMap fun b => [hexDigit (b.toNat / 16), hexDigit (b.toNat % 16)]

end Bytes

namespace Command

def render (hex : Bool) (bytes : Bytes) : List Char := if hex then bytes.hex else Utf8.decodeLossy bytes

/-- The bytes that the list of answers takes for each. -/
def answerSize : Nat := 24

def reserveAnswers (alloc : Allocator) (count : Nat) : Except Stop Unit :=
  if maxAllocation < count * answerSize then .error (.fault .capacityOverflow)
  else if count ≠ 0 && !alloc (count * answerSize) then .error (.fault .allocationFailed)
  else .ok ()

def frameLine (index : Nat) (text : List Char) : List Char :=
  s!"Frame {index}: ".toList ++ text ++ ['\n']

variable {m : Type → Type} [Monad m] [Host m]

/-- Prints `count` frames from `index` on and answers with their texts. -/
def get (alloc : Allocator) (input : String) (bucketSize index count : Nat) (hex : Bool) : Run m (List (List Char)) := do
  let data ← readSource input
  let store ← rebuild alloc input bucketSize data
  reserveAnswers alloc count
  let stop := Word.saturatingAdd index count
  let visit (_ : Nat) (frame : View UInt8) (read : List (List Char)) := render hex frame.elements :: read
  let stage := Stage.selectFrames index stop store.frameCount
  match store.iterate index stop visit [] with
  | .ok _ read =>
    print (lines index read.reverse)
    return read.reverse
  | .error e read =>
    print (lines index read.reverse)
    atStage stage (.error e)
where
  lines (index : Nat) (texts : List (List Char)) : List Char :=
    (texts.zipIdx index).flatMap fun (text, i) => frameLine i text

end Command
end FrameLog
