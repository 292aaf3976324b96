import FrameLog.Command.Options
import FrameLog.Command.Payloads
import FrameLog.Store.Append
import FrameLog.Store.Create
import FrameLog.Store.Read

/-! Packing: the payloads of a text become the frames of a file. -/
namespace FrameLog.Command

def appendAll (alloc : Allocator) (index : Nat) : List Bytes → Store → Except Stop Store
  | [], s => .ok s
  | bytes :: rest, s =>
    match Store.append alloc bytes s with
    | .ok _ s => appendAll alloc (index + 1) rest s
    | .error e _ => atStage (.appendFrame index) (.error e)

variable {m : Type → Type} [Monad m] [Host m]

def readText (path : String) : Run m (List Char) := do
  match Utf8.decode (← readSource path) with
  | .error e => throw (.failed .decodeInput (.text e))
  | .ok text => return text

def pack (alloc : Allocator) (input output : String) (format : Format) (options : Options) : Run m Stats := do
  let config ← options.resolve
  let values ← parsePayloads (← readText input) format
  let empty ← atStage .createStore (Store.create alloc config)
  let store ← appendAll alloc 0 (values.map payload) empty
  let bytes ← atStage .readBack store.written
  request (.writeOutput output) (Host.writeFile output bytes)
  return store.stats

end FrameLog.Command
