import Mathlib.Data.List.Basic
import FrameLog.Buffer
import FrameLog.Proofs.Growth

/-!
# What the buffer's operations leave behind

Growing and writing keep the bytes in front; a request that is turned down keeps all of them.
-/

namespace FrameLog.Buffer

variable {alloc : Allocator} {b c : Buffer} {front data : Bytes}

/-! ## A new buffer -/

theorem capacity_zeros (size : Nat) (expansion : Expansion) : capacity ⟨Bytes.zeros size, expansion⟩ = size :=
  List.length_replicate

theorem request_eq_ok {size : Nat} :
    request alloc 0 size = .ok () ↔ size = 0 ∨ size ≤ maxAllocation ∧ alloc size := by
  simp [request]

theorem withCapacity_eq {size : Nat} {expansion : Expansion} (hvalid : expansion.validate = .ok ())
    (hgranted : request alloc 0 size = .ok ()) :
    withCapacity alloc size expansion = .ok ⟨Bytes.zeros size, expansion⟩ := by
  rw [withCapacity, hvalid, ok_bind, hgranted, ok_bind]
  rfl

/-! ## Growing -/

theorem extendTo_apply (alloc : Allocator) (size : Nat) (b : Buffer) :
    extendTo alloc size b =
      if size ≤ b.capacity ∨ size ≤ maxAllocation ∧ alloc size then
        .ok ⟨⟩ { b with bytes := b.bytes ++ Bytes.zeros (size - b.capacity) }
      else .error (.refused (.outOfMemory size b.capacity)) b := by
  by_cases h : size ≤ b.capacity ∨ size ≤ maxAllocation ∧ alloc size
  · simp [extendTo, Action.bind_apply, request, require, h]
  · simp [extendTo, Action.bind_apply, request, require, h]

theorem capacityFor_eq (b : Buffer) (target : Nat) :
    b.capacityFor target =
      if b.expansion.allowed ∧ target ≤ maxAllocation then .ok (growTo b.expansion.factor target b.capacity)
      else refuse (.outOfMemory target b.capacity) := by
  by_cases hallowed : b.expansion.allowed = true
  · by_cases htarget : target ≤ maxAllocation
    · simp [capacityFor, nextCapacity, require, hallowed, htarget]
    · simp [capacityFor, nextCapacity, require, hallowed, htarget]
  · simp [capacityFor, require, hallowed]

/-- What a buffer may have become when it has been asked for room: the old bytes are still in front. -/
structure Grown (b : Buffer) (target : Nat) (c : Buffer) : Prop where
  front : b.bytes <+: c.bytes
  room : target ≤ c.capacity
  addressable : c.capacity ≤ max b.capacity maxAllocation
  expansion : c.expansion = b.expansion

/-- The capacity with which there is room for `target` bytes: the one there is, or else the first one on the way up, if
growing is allowed and the allocator grants it. -/
def roomFor (alloc : Allocator) (x : Expansion) (capacity target : Nat) : Except Refusal Nat :=
  if target ≤ capacity then .ok capacity
  else if !x.allowed then .error (.outOfMemory target capacity)
  else if maxAllocation < target then .error (.outOfMemory target capacity)
  else if alloc (growTo x.factor target capacity) then .ok (growTo x.factor target capacity)
  else .error (.outOfMemory (growTo x.factor target capacity) capacity)

section
variable {x : Expansion} {capacity target size : Nat}

theorem roomFor_eq_ok (h : roomFor alloc x capacity target = .ok size) :
    target ≤ size ∧ capacity ≤ size ∧ size ≤ max capacity maxAllocation := by
  unfold roomFor at h
  split at h
  · next hroom =>
      cases h
      exact ⟨hroom, Nat.le_refl _, Nat.le_max_left ..⟩
  split at h
  · cases h
  split at h
  · cases h
  · next hroom _ htarget =>
      have hle := le_growTo x.factor target capacity
      have hmax := growTo_le x.factor (Nat.not_lt.mp htarget) capacity
      split at h
      · cases h
        exact ⟨hle, by omega, hmax⟩
      · cases h

theorem roomFor_eq_error {r : Refusal} (h : roomFor alloc x capacity target = .error r) :
    ∃ required, r = .outOfMemory required capacity := by
  unfold roomFor at h
  split at h
  · cases h
  split at h
  · cases h
    exact ⟨_, rfl⟩
  split at h
  · cases h
    exact ⟨_, rfl⟩
  split at h
  · cases h
  · cases h
    exact ⟨_, rfl⟩

/-- How far a buffer of the given capacity has grown once it has held `peak` bytes. -/
def stretched (x : Expansion) (capacity peak : Nat) : Nat :=
  if x.allowed then growTo x.factor peak capacity else capacity

theorem stretched_of_le {peak : Nat} (x : Expansion) (h : peak ≤ capacity) : stretched x capacity peak = capacity := by
  rw [stretched, growTo_of_le x.factor h, ite_self]

theorem stretched_stretched (x : Expansion) (capacity first second : Nat) :
    stretched x (stretched x capacity first) second = stretched x capacity (max first second) := by
  unfold stretched
  split
  · exact growTo_growTo ..
  · rfl

theorem roomFor_eq_stretched (h : roomFor alloc x capacity target = .ok size) : size = stretched x capacity target := by
  unfold roomFor at h
  split at h
  · next hroom =>
      cases h
      exact (stretched_of_le x hroom).symm
  split at h
  · cases h
  split at h
  · cases h
  · next hallowed _ =>
      split at h
      · cases h
        rw [stretched, if_pos (by simpa using hallowed)]
      · cases h

end

theorem ensureCapacity_eq (alloc : Allocator) (target : Nat) (b : Buffer) :
    ensureCapacity alloc target b = match roomFor alloc b.expansion b.capacity target with
      | .ok size => .ok (b.capacity < target) { b with bytes := b.bytes ++ Bytes.zeros (size - b.capacity) }
      | .error r => .error (.refused r) b := by
  rw [ensureCapacity, roomFor]
  by_cases hroom : target ≤ b.capacity
  · simp [Action.bind_apply, hroom, Bytes.zeros]
  by_cases hallowed : b.expansion.allowed = true
  · by_cases htarget : maxAllocation < target
    · simp [Action.bind_apply, hroom, capacityFor_eq, hallowed, htarget, Nat.not_le.mpr htarget]
    · have hcapacity : b.capacityFor target = .ok (growTo b.expansion.factor target b.capacity) := by
        rw [capacityFor_eq, if_pos ⟨hallowed, Nat.not_lt.mp htarget⟩]
      have hle := le_growTo b.expansion.factor target b.capacity
      have hmax := growTo_le b.expansion.factor (Nat.not_lt.mp htarget) b.capacity
      generalize growTo b.expansion.factor target b.capacity = size at hcapacity hle hmax
      -- The size that is asked for is more than there is, so that the allocator alone decides.
      have hgrant : (size ≤ b.capacity ∨ size ≤ maxAllocation ∧ alloc size) ↔ alloc size := by
        constructor
        · rintro (hsmall | ⟨-, hgranted⟩)
          · omega
          · exact hgranted
        · exact fun hgranted => .inr ⟨by omega, hgranted⟩
      have hextend := extendTo_apply alloc size b
      rw [if_congr hgrant rfl rfl] at hextend
      by_cases hgranted : alloc size = true
      · simp [Action.bind_apply, Action.map_apply, hroom, Nat.not_le.mp hroom, hallowed, htarget, hcapacity, hextend,
          hgranted]
      · simp [Action.bind_apply, Action.map_apply, hroom, hallowed, htarget, hcapacity, hextend, hgranted]
  · simp [Action.bind_apply, hroom, capacityFor_eq, hallowed]

theorem ensureCapacity_grown {target size : Nat} (h : roomFor alloc b.expansion b.capacity target = .ok size) :
    ∃ grew c, ensureCapacity alloc target b = .ok grew c ∧ Grown b target c ∧ c.capacity = size := by
  obtain ⟨htarget, hsize, hmax⟩ := roomFor_eq_ok h
  have hcapacity : (Buffer.mk (b.bytes ++ Bytes.zeros (size - b.capacity)) b.expansion).capacity = size := by
    simp only [capacity, List.length_append, Bytes.zeros, List.length_replicate] at hsize ⊢
    omega
  refine ⟨_, _, by rw [ensureCapacity_eq, h], ?_, hcapacity⟩
  exact {
    front := List.prefix_append ..
    room := hcapacity.symm ▸ htarget
    addressable := hcapacity.symm ▸ hmax
    expansion := rfl }

/-! ## Other sizes and other bytes -/

theorem resizeExact_eq (alloc : Allocator) (size : Nat) (b : Buffer) :
    resizeExact alloc size b =
      if size ≤ maxAllocation ∧ (size ≤ b.capacity ∨ alloc size) then
        .ok ⟨⟩ { b with bytes := b.bytes.take size ++ Bytes.zeros (size - b.capacity) }
      else .error (.refused (.outOfMemory size b.capacity)) b := by
  rw [resizeExact]
  by_cases hmax : size ≤ maxAllocation
  · by_cases hle : size ≤ b.capacity
    · simp [Action.bind_apply, require, hmax, hle, Bytes.zeros]
    · have hwhole : b.bytes.take size = b.bytes := List.take_of_length_le (Nat.le_of_not_le hle)
      simp [Action.bind_apply, require, hmax, hle, extendTo_apply, hwhole]
  · simp [Action.bind_apply, require, hmax]

theorem capacity_resized (b : Buffer) (size : Nat) :
    capacity { b with bytes := b.bytes.take size ++ Bytes.zeros (size - b.capacity) } = size := by
  simp only [capacity, List.length_append, List.length_take, Bytes.zeros, List.length_replicate]
  omega

theorem zero_apply (b : Buffer) : zero b = .ok ⟨⟩ { b with bytes := Bytes.zeros b.capacity } := rfl

theorem capacity_zeroedIf (clearBuffer : Bool) (b : Buffer) :
    (if clearBuffer then { b with bytes := Bytes.zeros b.capacity } else b).capacity = b.capacity := by
  cases clearBuffer with
  | false => rfl
  | true => exact capacity_zeros ..

theorem expansion_zeroedIf (clearBuffer : Bool) (b : Buffer) :
    (if clearBuffer then { b with bytes := Bytes.zeros b.capacity } else b).expansion = b.expansion := by
  cases clearBuffer <;> rfl

theorem write_apply {position : Nat} (h : position + data.length ≤ b.capacity) :
    write position data b =
      .ok ⟨⟩ { b with bytes := b.bytes.take position ++ data ++ b.bytes.drop (position + data.length) } := by
  simp [write, Action.bind_apply, check, h]

/-- Behind what is kept in front there stand the new bytes. -/
theorem write_behind (data : Bytes) (hfront : front <+: b.bytes) (hroom : front.length + data.length ≤ b.capacity) :
    ∃ c, write front.length data b = .ok ⟨⟩ c ∧ front ++ data <+: c.bytes ∧ c.capacity = b.capacity ∧
      c.expansion = b.expansion := by
  refine ⟨_, write_apply hroom, ?_, ?_, rfl⟩
  · rw [← List.prefix_iff_eq_take.mp hfront]
    exact List.prefix_append ..
  · simp only [capacity, List.length_append, List.length_take, List.length_drop] at hroom ⊢
    omega

end FrameLog.Buffer
