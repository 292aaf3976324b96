import FrameLog.Failure
import FrameLog.Decimal.Layout
import FrameLog.Text.Described

/-! What a store is created with, and when that is valid. -/
namespace FrameLog

/-- Whether a buffer may grow, and by which factor (in single precision). -/
structure Expansion where
  allowed : Bool
  factor : Binary
deriving DecidableEq, Repr

namespace Expansion

def defaultFactor : Binary := .finite false 12582912 (-23)

def fixed : Expansion := ⟨false, defaultFactor⟩

def growable (factor : Binary) : Expansion := ⟨true, factor⟩

/-- The factor has to be a finite number above one, also where growth is not allowed. -/
def validate (x : Expansion) : Outcome Unit :=
  require (x.factor.isFinite ∧ Binary.one.lt x.factor) (.badArgument (.factorNotAboveOne x.factor))

/-- Factors in messages have no exponent and no point after a whole number. -/
def messageLayout : Decimal.Layout := ⟨.up, fun _ => true, false, false, "NaN", "inf"⟩

/-- Factors in descriptions have a point, or an exponent if they are very large or small. -/
def descriptionLayout : Decimal.Layout := ⟨.up, fun k => -4 ≤ k && k < 16, true, false, "NaN", "inf"⟩

def describe (x : Expansion) : Described :=
  .record "ExpansionPolicy" [("allowed", .ofBool x.allowed),
    ("factor", .word (String.ofList (Decimal.text .single descriptionLayout x.factor)))]

end Expansion

structure Config where
  bucketSize : Nat := 64
  initialCapacity : Nat := 4096
  expansion : Expansion := .fixed
  expectedFrames : Nat := 0
deriving DecidableEq, Repr

namespace Config

def validateBucketSize (bucketSize : Nat) : Outcome Unit :=
  require (bucketSize ≠ 0) (.badArgument .zeroBucketSize)

def validate (c : Config) : Outcome Unit := do
  validateBucketSize c.bucketSize
  require (c.initialCapacity ≤ maxAllocation) (.badArgument (.capacityPastLimit c.initialCapacity))
  c.expansion.validate

theorem validate_ne_fail {c : Config} {f : Fault} : c.validate ≠ fail f :=
  bind_ne_fail require_ne_fail fun _ _ => bind_ne_fail require_ne_fail fun _ _ => require_ne_fail

/-- The buckets that the expected frames fill, one at least. -/
def expectedBuckets (c : Config) : Nat :=
  if c.bucketSize = 0 then 1 else max 1 ((c.expectedFrames + c.bucketSize - 1) / c.bucketSize)

def describe (c : Config) : Described :=
  .record "StoreConfig" [("bucket_size", .ofNat c.bucketSize), ("initial_capacity", .ofNat c.initialCapacity),
    ("expansion", c.expansion.describe), ("expected_frames", .ofNat c.expectedFrames)]

end Config
end FrameLog
