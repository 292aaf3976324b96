import FrameLog.Failure

/-! How a buffer's capacity grows: by a factor, step after step, until the target fits. -/
namespace FrameLog

def scaled (current : Nat) (factor : Binary) : Binary :=
  Binary.mul .double (Binary.ofNat .double current) factor

/-- The smallest size not below a scaled capacity, within what can be allocated; what is no number counts as zero. -/
def roundUpSize : Binary → Nat
  | .nan => 0
  | .infinity negative => if negative then 0 else maxAllocation
  | .finite negative m e =>
    if !negative && 63 ≤ (m.log2 : Int) + e && m ≠ 0 then maxAllocation else Binary.ceilNat negative m e

/-- One step of growth; where the factor brings nothing, one byte more. -/
def growStep (factor : Binary) (current : Nat) : Nat :=
  let next := roundUpSize (scaled current factor)
  if next ≤ current then current + 1 else next

theorem lt_growStep (factor : Binary) (current : Nat) : current < growStep factor current := by
  simp only [growStep]
  split <;> omega

/-- The first capacity on the way up from `current` that holds `target` bytes. -/
def growTo (factor : Binary) (target current : Nat) : Nat :=
  if current < target then growTo factor target (growStep factor current) else current
termination_by target - current
decreasing_by have := lt_growStep factor current; omega

theorem le_growTo (factor : Binary) (target current : Nat) : target ≤ growTo factor target current := by
  fun_induction growTo factor target current with
  | case1 _ _ ih => exact ih
  | case2 _ h => exact Nat.not_lt.mp h

def nextCapacity (current target : Nat) (factor : Binary) : Outcome Nat := do
  require (target ≤ maxAllocation) (.outOfMemory target current)
  return growTo factor target current

end FrameLog
