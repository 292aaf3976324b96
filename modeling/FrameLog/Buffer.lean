import FrameLog.Config
import FrameLog.Growth
import FrameLog.Prefix
import FrameLog.View

/-! A region of bytes that is zero where it was never written and grows as its policy allows. -/
namespace FrameLog

def Bytes.zeros (n : Nat) : Bytes := List.replicate n 0

structure Buffer where
  bytes : Bytes
  expansion : Expansion
deriving DecidableEq

namespace Buffer

/-- All of the region is addressable: its length is the capacity. -/
def capacity (b : Buffer) : Nat := b.bytes.length

/-- Asks for `size` bytes in place of `current`; only more than there are need the allocator. -/
def request (alloc : Allocator) (current size : Nat) : Outcome Unit :=
  require (size ≤ current ∨ size ≤ maxAllocation ∧ alloc size) (.outOfMemory size current)

def withCapacity (alloc : Allocator) (capacity : Nat) (expansion : Expansion) : Outcome Buffer := do
  expansion.validate
  request alloc 0 capacity
  return ⟨Bytes.zeros capacity, expansion⟩

def ofBytes (bytes : Bytes) (expansion : Expansion) : Outcome Buffer := do
  expansion.validate
  return ⟨bytes, expansion⟩

def extendTo (alloc : Allocator) (size : Nat) : Action Buffer Unit := do
  let b ← get
  request alloc b.capacity size
  set { b with bytes := b.bytes ++ Bytes.zeros (size - b.capacity) }

/-- The capacity that makes room for `target` bytes, which are more than there are. -/
def capacityFor (b : Buffer) (target : Nat) : Outcome Nat := do
  require b.expansion.allowed (.outOfMemory target b.capacity)
  nextCapacity b.capacity target b.expansion.factor

/-- Makes `target` bytes addressable, growing if that is needed and allowed; says whether it grew. -/
def ensureCapacity (alloc : Allocator) (target : Nat) : Action Buffer Bool := do
  let b ← get
  if target ≤ b.capacity then pure false
  else
    extendTo alloc (← b.capacityFor target)
    pure true

/-- Cuts the region off, or appends zeros, so that it has `size` bytes. -/
def resizeExact (alloc : Allocator) (size : Nat) : Action Buffer Unit := do
  let b ← get
  require (size ≤ maxAllocation) (.outOfMemory size b.capacity)
  if size ≤ b.capacity then set { b with bytes := b.bytes.take size }
  else extendTo alloc size

def zero : Action Buffer Unit :=
  modify fun b => { b with bytes := Bytes.zeros b.capacity }

def write (position : Nat) (data : Bytes) : Action Buffer Unit := do
  let b ← get
  check (position + data.length ≤ b.capacity) .outOfBounds
  set { b with bytes := b.bytes.take position ++ data ++ b.bytes.drop (position + data.length) }

/-- The buffer is the first allocation its views can look into. -/
def region : Region := .allocation 0

def view (b : Buffer) (start length : Nat) : Outcome (View UInt8) :=
  View.ofRange region b.bytes start length

def describe (b : Buffer) : Described :=
  .record "GrowableBuffer" [("capacity", .ofNat b.capacity), ("expansion", b.expansion.describe)]

end Buffer
end FrameLog
