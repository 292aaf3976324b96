import FrameLog.Json.Record
import FrameLog.Store.Basic

/-! Configurations, buckets and statistics as JSON. -/
namespace FrameLog

open Json (RecordField Value Reader readRecord readNatural readSingle readBool)

/-- Sizes have 64 bits, counts of frames in a bucket and lengths of buckets 32. -/
def Json.readSize : Reader Nat := readNatural (Word.limit + 1)

def Json.readCount : Reader Nat := readNatural 0x100000000

namespace Expansion

structure Parts where
  allowed : Option Bool := none
  factor : Option Binary := none

/-- What is absent is as in a fixed buffer. -/
def Parts.complete (p : Parts) : Expansion := ⟨p.allowed.getD fixed.allowed, p.factor.getD fixed.factor⟩

def fields : List (RecordField Parts) :=
  [.of "allowed" Parts.allowed (fun p x => { p with allowed := some x }) readBool,
    .of "factor" Parts.factor (fun p x => { p with factor := some x }) readSingle]

def readJson : Reader Expansion := (readRecord fields {}).finish fun p => some p.complete

def toJson (x : Expansion) : Value := .object [("allowed", .bool x.allowed), ("factor", .number (.single x.factor))]

end Expansion

namespace Config

structure Parts where
  bucketSize : Option Nat := none
  initialCapacity : Option Nat := none
  expansion : Option Expansion := none
  expectedFrames : Option Nat := none

def Parts.complete (p : Parts) : Config :=
  let base : Config := {}
  { bucketSize := p.bucketSize.getD base.bucketSize
    initialCapacity := p.initialCapacity.getD base.initialCapacity
    expansion := p.expansion.getD base.expansion
    expectedFrames := p.expectedFrames.getD base.expectedFrames }

def fields : List (RecordField Parts) :=
  [.of "bucket_size" Parts.bucketSize (fun p x => { p with bucketSize := some x }) Json.readCount,
    .of "initial_capacity" Parts.initialCapacity (fun p x => { p with initialCapacity := some x }) Json.readSize,
    .of "expansion" Parts.expansion (fun p x => { p with expansion := some x }) Expansion.readJson,
    .of "expected_frames" Parts.expectedFrames (fun p x => { p with expectedFrames := some x }) Json.readSize]

def readJson : Reader Config := (readRecord fields {}).finish fun p => some p.complete

def toJson (c : Config) : Value :=
  .object [("bucket_size", .number (.natural c.bucketSize)), ("initial_capacity", .number (.natural c.initialCapacity)),
    ("expansion", c.expansion.toJson), ("expected_frames", .number (.natural c.expectedFrames))]

end Config

namespace Bucket

structure Parts where
  offset : Option Nat := none
  totalLength : Option Nat := none

def Parts.complete (p : Parts) : Option Bucket := return ⟨← p.offset, ← p.totalLength⟩

def fields : List (RecordField Parts) :=
  [.of "offset" Parts.offset (fun p x => { p with offset := some x }) Json.readSize,
    .of "total_length" Parts.totalLength (fun p x => { p with totalLength := some x }) Json.readCount]

def readJson : Reader Bucket := (readRecord fields {}).finish Parts.complete

def toJson (b : Bucket) : Value :=
  .object [("offset", .number (.natural b.offset)), ("total_length", .number (.natural b.totalLength))]

end Bucket

namespace Stats

structure Parts where
  frames : Option Nat := none
  buckets : Option Nat := none
  bucketSize : Option Nat := none
  dataLength : Option Nat := none
  capacity : Option Nat := none

def Parts.complete (p : Parts) : Option Stats :=
  return ⟨← p.frames, ← p.buckets, ← p.bucketSize, ← p.dataLength, ← p.capacity⟩

def fields : List (RecordField Parts) :=
  [.of "frames" Parts.frames (fun p x => { p with frames := some x }) Json.readSize,
    .of "buckets" Parts.buckets (fun p x => { p with buckets := some x }) Json.readSize,
    .of "bucket_size" Parts.bucketSize (fun p x => { p with bucketSize := some x }) Json.readCount,
    .of "data_len" Parts.dataLength (fun p x => { p with dataLength := some x }) Json.readSize,
    .of "capacity" Parts.capacity (fun p x => { p with capacity := some x }) Json.readSize]

def readJson : Reader Stats := (readRecord fields {}).finish Parts.complete

def toJson (s : Stats) : Value :=
  .object [("frames", .number (.natural s.frames)), ("buckets", .number (.natural s.buckets)),
    ("bucket_size", .number (.natural s.bucketSize)), ("data_len", .number (.natural s.dataLength)),
    ("capacity", .number (.natural s.capacity))]

end Stats
end FrameLog
