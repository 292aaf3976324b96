import FrameLog.Bucket
import FrameLog.Buffer
import FrameLog.Cursor

/-! The store: frames back to back in a buffer, and the table of buckets that locates them. -/
namespace FrameLog

structure Stats where
  frames : Nat
  buckets : Nat
  bucketSize : Nat
  dataLength : Nat
  capacity : Nat
deriving DecidableEq, Repr

namespace Stats

/-- The share of the buffer that holds data, in percent. -/
def utilization (s : Stats) : Binary :=
  if s.capacity = 0 then .zero .double
  else
    Binary.mul .double (.div .double (.ofNat .double s.dataLength) (.ofNat .double s.capacity)) (.ofNat .double 100)

def averagePayload (s : Stats) : Outcome Binary := do
  if s.frames = 0 then return .zero .double
  let payloads ← Word.sub s.dataLength (← Word.mul s.frames Prefix.size)
  return .div .double (.ofNat .double payloads) (.ofNat .double s.frames)

end Stats

structure Store where
  /-- Nothing once the store has been disposed of. -/
  buffer : Option Buffer
  buckets : Table
  frameCount : Nat
  dataEnd : Nat
  bucketSize : Nat

namespace Store

def capacity (s : Store) : Nat := s.buffer.elim 0 Buffer.capacity

def isDisposed (s : Store) : Bool := s.buffer.isNone

def isEmpty (s : Store) : Bool := s.frameCount = 0

def stats (s : Store) : Stats where
  frames := s.frameCount
  buckets := s.buckets.length
  bucketSize := s.bucketSize
  dataLength := s.dataEnd
  capacity := s.capacity

def describe (s : Store) : Described :=
  .record "FrameStore" [("frames", .ofNat s.frameCount), ("buckets", .ofNat s.buckets.length),
    ("bucket_size", .ofNat s.bucketSize), ("data_len", .ofNat s.dataEnd), ("capacity", .ofNat s.capacity),
    ("disposed", .ofBool s.isDisposed)]

/-- Runs an action on the buffer, which is there until the store is disposed of. -/
def onBuffer {α : Type} (act : Action Buffer α) : Action Store α := fun s =>
  match s.buffer with
  | none => .error (.refused .disposed) s
  | some b =>
    match act b with
    | .ok a b => .ok a { s with buffer := some b }
    | .error e b => .error e { s with buffer := some b }

end Store
end FrameLog
