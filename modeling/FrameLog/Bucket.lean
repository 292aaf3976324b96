import FrameLog.Word
import FrameLog.Text.Described

/-! Buckets: where each run of frames lies, and the table of them. -/
namespace FrameLog

structure Bucket where
  offset : Nat
  /-- The bytes of its frames, prefixes included. -/
  totalLength : Nat
deriving DecidableEq, Repr

namespace Bucket

def first : Bucket := ⟨0, 0⟩

/-- The bytes that one bucket may span at most. -/
def maxLength : Nat := 0x7FFFFFFF

def endOffset (b : Bucket) : Outcome Nat := Word.add b.offset b.totalLength

def lengthAfter (b : Bucket) (frameSize : Nat) : Outcome Nat := do
  let total ← Word.add b.totalLength frameSize
  require (total ≤ maxLength) (.frameTooLarge frameSize)
  Word.toUnsigned32 total

theorem lengthAfter_eq (b : Bucket) {frameSize : Nat} (h : b.totalLength + frameSize ≤ Word.limit) :
    b.lengthAfter frameSize = if b.totalLength + frameSize ≤ maxLength then .ok (b.totalLength + frameSize)
      else refuse (.frameTooLarge frameSize) := by
  have hadd : Word.add b.totalLength frameSize = .ok (b.totalLength + frameSize) := Word.add_eq_ok.mpr ⟨h, rfl⟩
  rw [lengthAfter, hadd, ok_bind]
  by_cases hfit : b.totalLength + frameSize ≤ maxLength
  · rw [require_pos hfit, ok_bind, if_pos hfit]
    exact Word.toUnsigned32_eq_ok.mpr ⟨Nat.lt_of_le_of_lt hfit (by decide), rfl⟩
  · rw [require_neg hfit, refuse_bind, if_neg hfit]

def withLength (b : Bucket) (total : Nat) : Outcome Bucket := do
  check (b.totalLength ≤ total) .shrunkBucket
  return { b with totalLength := total }

def describe (b : Bucket) : Described :=
  .record "BucketIndex" [("offset", .ofNat b.offset), ("total_length", .ofNat b.totalLength)]

end Bucket

/-- The buckets in order. A store in use has one at least. -/
abbrev Table := List Bucket

namespace Table

def fresh : Table := [.first]

/-- The bytes that a table takes for each bucket. -/
def entrySize : Nat := 16

def withRoom (alloc : Allocator) (count : Nat) : Outcome Table := do
  let size := max 1 count * entrySize
  check (size ≤ maxAllocation) .capacityOverflow
  check (alloc size) .allocationFailed
  return fresh

def last (t : Table) : Outcome Bucket :=
  match t.getLast? with
  | some b => .ok b
  | none => fail .emptyTable

theorem last_eq_ok {t : Table} {bucket : Bucket} : t.last = .ok bucket ↔ t.getLast? = some bucket := by
  unfold last
  split <;> simp_all [fail]

/-- Opens an empty bucket behind the last one. -/
def openNext (t : Table) : Outcome Table := do
  let b ← t.last
  return t ++ [⟨← b.endOffset, 0⟩]

def openNextIf (opens : Bool) (t : Table) : Outcome Table := if opens then t.openNext else .ok t

def setLastLength (t : Table) (total : Nat) : Outcome Table := do
  let b ← t.last
  return t.dropLast ++ [← b.withLength total]

end Table
end FrameLog
