import FrameLog.Store.Basic

/-! The ways to get a store: empty, or over bytes that already hold frames. -/
namespace FrameLog.Store

def ofParts (buffer : Buffer) (bucketSize : Nat) (buckets : Table) (frameCount dataEnd : Nat) : Store :=
  { buffer := some buffer, buckets, frameCount, dataEnd, bucketSize }

def create (alloc : Allocator) (config : Config) : Outcome Store := do
  config.validate
  let buffer ← Buffer.withCapacity alloc config.initialCapacity config.expansion
  let buckets ← Table.withRoom alloc config.expectedBuckets
  return ofParts buffer config.bucketSize buckets 0 0

/-- An empty store over a given buffer, whose bytes count as free space. -/
def ofBuffer (buffer : Buffer) (bucketSize : Nat) : Outcome Store := do
  Config.validateBucketSize bucketSize
  return ofParts buffer bucketSize .fresh 0 0

/-- The frame that follows `count` others is the first of a bucket, the very first apart. -/
def startsBucket (bucketSize count : Nat) : Outcome Bool :=
  if count = 0 then .ok false else (Word.mod count bucketSize).map (· == 0)

def enter (bucketSize count frameSize : Nat) (buckets : Table) : Outcome Table := do
  let buckets ← buckets.openNextIf (← startsBucket bucketSize count)
  let last ← buckets.last
  buckets.setLastLength (← last.lengthAfter frameSize)

/-- Reads the frames from the cursor to the end of the data into the table; `count` frames lie before it. -/
def scan (bucketSize : Nat) (c : Cursor) (buckets : Table) (count : Nat) : Outcome (Table × Nat) :=
  if c.offset < c.data.length then
    match _h : c.skip with
    | .error e => .error e
    | .ok next => do
      let buckets ← enter bucketSize count (← Word.sub next.offset c.offset) buckets
      let count ← Word.add count 1
      scan bucketSize next buckets count
  else .ok (buckets, count)
termination_by c.data.length - c.offset
decreasing_by
  obtain ⟨hd, ho⟩ := Cursor.skip_eq_ok _h
  rw [hd]
  omega

/-- A store over a buffer whose first `dataLength` bytes are frames. -/
def adopt (buffer : Buffer) (dataLength bucketSize : Nat) : Outcome Store := do
  Config.validateBucketSize bucketSize
  require (dataLength ≤ buffer.capacity) (.badArgument (.dataPastBuffer dataLength buffer.capacity))
  let (buckets, count) ← scan bucketSize ⟨buffer.bytes.take dataLength, 0⟩ .fresh 0
  return ofParts buffer bucketSize buckets count dataLength

def ofBytes (alloc : Allocator) (data : Bytes) (config : Config) : Outcome Store := do
  config.validate
  let size := max config.initialCapacity data.length
  let buffer ← Buffer.withCapacity alloc size config.expansion
  adopt { buffer with bytes := data ++ buffer.bytes.drop data.length } data.length config.bucketSize

end FrameLog.Store
