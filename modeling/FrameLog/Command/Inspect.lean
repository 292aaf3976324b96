import FrameLog.Command.Failure
import FrameLog.Json.Schema
import FrameLog.Json.Writer
import FrameLog.Store.Create

/-! Inspecting: a summary of a packed file. -/
namespace FrameLog.Command

def reportJson (s : Store) : List Char :=
  Json.writeIndented [] (.object [("stats", s.stats.toJson), ("buckets", .array (s.buckets.map Bucket.toJson))]) ++ ['\n']

def bucketLine (b : Bucket) (i : Nat) : String := s!"Bucket {i} @ offset {b.offset}: {b.totalLength} bytes"

/-- The lines of the summary; `average` is the mean payload length, `size` the length of the file. -/
def reportLines (s : Store) (average : Binary) (size : Nat) : List String :=
  ["", "=== Store Summary ===",
    s!"Frames:            {s.frameCount}",
    s!"Buckets:           {s.buckets.length} ({s.bucketSize} frames each)",
    s!"Data length:       {s.dataEnd} bytes",
    s!"Average payload:   {String.ofList (Decimal.tenths average)} bytes",
    "", "=== Buckets ==="] ++
  (s.buckets.zipIdx.map fun (b, i) => bucketLine b i) ++
  ["", s!"✓ Index rebuilt from {size} bytes"]

def unlines (lines : List String) : List Char := lines.flatMap fun line => line.toList ++ ['\n']

variable {m : Type → Type} [Monad m] [Host m]

def rebuild (alloc : Allocator) (input : String) (bucketSize : Nat) (data : Bytes) : Except Stop Store :=
  atStage (.rebuildIndex input) (Store.ofBytes alloc data { bucketSize })

def inspect (alloc : Allocator) (input : String) (bucketSize : Nat) (json : Bool) : Run m Stats := do
  let data ← readSource input
  let store ← rebuild alloc input bucketSize data
  if json then print (reportJson store)
  else
    let average ← unfailing store.stats.averagePayload
    print (unlines (reportLines store average data.length))
  return store.stats

end FrameLog.Command
