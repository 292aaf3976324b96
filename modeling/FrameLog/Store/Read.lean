import FrameLog.Store.Basic

/-! Reading frames: by number through the table, and in order from a cursor. -/
namespace FrameLog.Store

def written (s : Store) : Outcome Bytes :=
  match s.buffer with
  | none => refuse .disposed
  | some b => do
    check (s.dataEnd ≤ b.capacity) .outOfBounds
    return b.bytes.take s.dataEnd

def bytes (s : Store) : Outcome (View UInt8) := do
  return View.whole Buffer.region (← s.written)

/-- The cursor on frame `i`: its bucket's first frame, and from there over the headers. -/
def seek (s : Store) (i : Nat) : Outcome Cursor := do
  let data ← s.written
  require (i < s.frameCount) (.outOfRange i s.frameCount)
  match s.buckets[← Word.div i s.bucketSize]? with
  | none => refuse (.outOfRange i s.frameCount)
  | some bucket => Cursor.skipMany (← Word.mod i s.bucketSize) ⟨data, bucket.offset⟩

def get (s : Store) (i : Nat) : Outcome (View UInt8) := do
  (← s.seek i).peek Buffer.region

def getWithPrefix (s : Store) (i : Nat) : Outcome (View UInt8) := do
  (← s.seek i).peekWhole Buffer.region

def checkRange (s : Store) (start stop : Nat) : Outcome Unit := do
  require (!s.isDisposed) .disposed
  require (stop ≤ s.frameCount) (.outOfRange stop s.frameCount)
  require (start ≤ stop) (.outOfRange start stop)

/-- `count` frames from `start` on in one piece, prefixes included. -/
def getRange (s : Store) (start count : Nat) : Outcome (View UInt8) := do
  require (count ≠ 0) (.badArgument .emptyRange)
  require (start + count ≤ Word.limit) (.outOfRange Word.limit s.frameCount)
  s.checkRange start (start + count)
  let first ← s.seek start
  let last ← s.seek (← Word.sub (start + count) 1)
  let stop ← last.skip
  View.ofRange Buffer.region first.data first.offset (← Word.sub stop.offset first.offset)

structure Frames where
  cursor : Cursor
  remaining : Nat

namespace Frames

/-- The next payload, if any is left. After a bad header none is. -/
def next (f : Frames) : Option (Outcome (View UInt8)) × Frames :=
  match f.remaining with
  | 0 => (none, f)
  | n + 1 =>
    match f.cursor.next Buffer.region with
    | .ok (frame, cursor) => (some (.ok frame), ⟨cursor, n⟩)
    | .error e => (some (.error e), { f with remaining := 0 })

def sizeHint (f : Frames) : Nat × Option Nat := (0, some f.remaining)

end Frames

/-- Where reading the frames from `start` up to `stop` begins; for no frame at all, at the end. -/
def rangeStart (s : Store) (start stop : Nat) : Outcome Cursor :=
  if start = stop then s.written.map (⟨·, s.dataEnd⟩) else s.seek start

def range (s : Store) (start stop : Nat) : Outcome Frames := do
  s.checkRange start stop
  let cursor ← s.rangeStart start stop
  return ⟨cursor, ← Word.sub stop start⟩

def frames (s : Store) : Outcome Frames := s.range 0 s.frameCount

variable {σ : Type}

/-- Shows `remaining` payloads from the cursor on to the visitor, numbered from `step`. -/
def visitFrom (visit : Nat → View UInt8 → σ → σ) (c : Cursor) (step : Nat) : Nat → Action σ Unit
  | 0 => pure ()
  | remaining + 1 => do
    let (frame, c) ← c.next Buffer.region
    modify (visit step frame)
    visitFrom visit c (step + 1) remaining

/-- Visits the frames from `start` up to `stop` in order, numbered from zero. -/
def iterate (s : Store) (start stop : Nat) (visit : Nat → View UInt8 → σ → σ) : Action σ Unit := do
  let f ← s.range start stop
  visitFrom visit f.cursor 0 f.remaining

end FrameLog.Store
