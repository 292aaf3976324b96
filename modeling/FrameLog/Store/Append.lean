import FrameLog.Store.Basic
import FrameLog.Text.Utf8

/-! Appending frames, and starting over. -/
namespace FrameLog.Store

structure Slot where
  position : Nat
  frameSize : Nat
  /-- The length of its bucket once the frame is in. -/
  total : Nat
  opensBucket : Bool
deriving DecidableEq, Repr

/-- Where a frame with so many bytes of payload belongs, if lengths allow it at all. -/
def slotFor (s : Store) (payloadSize : Nat) : Outcome Slot := do
  require (payloadSize ≤ Prefix.maxPayload) (.frameTooLarge payloadSize)
  let frameSize ← Word.add Prefix.size payloadSize
  let opensBucket := (← Word.div s.frameCount s.bucketSize) == s.buckets.length
  let last ← s.buckets.last
  let total ← (if opensBucket then Bucket.first else last).lengthAfter frameSize
  let position ← last.endOffset
  return { position, frameSize, total, opensBucket }

/-- Finds the place for a payload of so many bytes and makes room there. -/
def reserve (alloc : Allocator) (payloadSize : Nat) : Action Store Slot := do
  let s ← get
  require (!s.isDisposed) .disposed
  let slot ← s.slotFor payloadSize
  let stop ← Word.add slot.position slot.frameSize
  let _ ← onBuffer (Buffer.ensureCapacity alloc stop)
  return slot

def commit (slot : Slot) (payload : Bytes) : Action Store Bucket := do
  let length ← Word.toSigned32 payload.length
  onBuffer (Buffer.write slot.position (Prefix.encode length ++ payload))
  let s ← get
  let buckets ← s.buckets.openNextIf slot.opensBucket
  let buckets ← buckets.setLastLength slot.total
  let frameCount ← Word.add s.frameCount 1
  let dataEnd ← Word.add s.dataEnd slot.frameSize
  set { s with buckets, frameCount, dataEnd }
  buckets.last

/-- Appends one frame; answers with its bucket. -/
def append (alloc : Allocator) (payload : Bytes) : Action Store Bucket := do
  commit (← reserve alloc payload.length) payload

def appendText (alloc : Allocator) (text : List Char) : Action Store Bucket := append alloc (Utf8.encode text)

/-- Appends payloads up to the first that is turned down; answers with their number. -/
def extend (alloc : Allocator) : List Bytes → Action Store Nat
  | [] => pure 0
  | payload :: rest => do
    let _ ← append alloc payload
    return (← extend alloc rest) + 1

def reset (clearBuffer : Bool) : Action Store Unit := do
  onBuffer (if clearBuffer then Buffer.zero else pure ())
  modify fun s => { s with buckets := .fresh, frameCount := 0, dataEnd := 0 }

/-- Forgets all frames and gives the buffer another size, if one is asked for. -/
def clear (alloc : Allocator) (capacity : Option Nat) : Action Store Unit := do
  reset false
  match capacity with
  | none => pure ()
  | some size => onBuffer (Buffer.resizeExact alloc size)

/-- Gives up the buffer and the table, for good. -/
def dispose : Action Store Unit :=
  modify fun s => { s with buffer := none, buckets := [], frameCount := 0, dataEnd := 0 }

end FrameLog.Store
