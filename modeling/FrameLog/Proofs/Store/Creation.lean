import FrameLog.Store.Create

/-!
# Creating a store

First the configuration has to be valid and a buffer granted, which can be refused. Then room for the buckets of the
frames that are expected is reserved, and if there is none, that is a fault.
-/

namespace FrameLog

variable {alloc : Allocator} {c : Config} {n : Nat} {f : Fault}

/-- A list is reserved, and there is no room for it. -/
def Fault.OfRoom (f : Fault) : Prop := f = .capacityOverflow ∨ f = .allocationFailed

theorem Buffer.withCapacity_ne_fail {capacity : Nat} {expansion : Expansion} :
    withCapacity alloc capacity expansion ≠ fail f :=
  bind_ne_fail require_ne_fail fun _ _ => bind_ne_fail require_ne_fail fun _ _ => nofun

namespace Config

/-- The same configuration with another number of frames to expect. -/
def expecting (c : Config) (n : Nat) : Config := { c with expectedFrames := n }

/-- What is asked for before room for buckets: that the configuration is valid, and a buffer. -/
def buffer (alloc : Allocator) (c : Config) : Outcome Buffer := do
  c.validate
  Buffer.withCapacity alloc c.initialCapacity c.expansion

/-- Room for the buckets that the expected frames fill is granted. -/
def Reserves (alloc : Allocator) (c : Config) : Prop :=
  c.expectedBuckets * Table.entrySize ≤ maxAllocation ∧ alloc (c.expectedBuckets * Table.entrySize)

theorem buffer_ne_fail : c.buffer alloc ≠ fail f :=
  bind_ne_fail validate_ne_fail fun _ _ => Buffer.withCapacity_ne_fail

theorem max_expectedBuckets (c : Config) : max 1 c.expectedBuckets = c.expectedBuckets := by
  rw [expectedBuckets]
  split
  · rfl
  · rw [← Nat.max_assoc, Nat.max_self]

theorem withRoom_of_reserves (h : c.Reserves alloc) : Table.withRoom alloc c.expectedBuckets = .ok .fresh := by
  rw [Table.withRoom, c.max_expectedBuckets, check_pos h.1, ok_bind, check_pos h.2, ok_bind]
  rfl

theorem withRoom_of_not_reserves (h : ¬ c.Reserves alloc) :
    ∃ f : Fault, f.OfRoom ∧ Table.withRoom alloc c.expectedBuckets = fail f := by
  rw [Table.withRoom, c.max_expectedBuckets]
  by_cases hsize : c.expectedBuckets * Table.entrySize ≤ maxAllocation
  · have hdenied : ¬ alloc (c.expectedBuckets * Table.entrySize) := fun hgranted => h ⟨hsize, hgranted⟩
    exact ⟨.allocationFailed, .inr rfl, by rw [check_pos hsize, ok_bind, check, if_neg hdenied]; rfl⟩
  · exact ⟨.capacityOverflow, .inl rfl, by rw [check, if_neg hsize]; rfl⟩

end Config

namespace Store

theorem create_eq (alloc : Allocator) (c : Config) : create alloc c = (do
    let buffer ← c.buffer alloc
    let buckets ← Table.withRoom alloc c.expectedBuckets
    return ofParts buffer c.bucketSize buckets 0 0) := by
  rw [create, Config.buffer, bind_assoc]

/-- A store that is created is the same whatever number of frames is expected. -/
theorem create_expecting (h : c.Reserves alloc) (h' : (c.expecting n).Reserves alloc) :
    create alloc (c.expecting n) = create alloc c := by
  rw [create_eq, create_eq, Config.withRoom_of_reserves h, Config.withRoom_of_reserves h']
  rfl

/-- The number of frames counts only where a store could be created: if room is not granted it is not. -/
theorem create_cases (alloc : Allocator) (c : Config) :
    (∃ r, c.buffer alloc = refuse r ∧ create alloc c = refuse r) ∨
      ∃ buffer, c.buffer alloc = .ok buffer ∧
        (c.Reserves alloc ∧ create alloc c = .ok (ofParts buffer c.bucketSize .fresh 0 0) ∨
          ¬ c.Reserves alloc ∧ ∃ f : Fault, f.OfRoom ∧ create alloc c = fail f) := by
  rw [create_eq]
  match hbuffer : c.buffer alloc with
  | .error (.fault f) => exact absurd hbuffer Config.buffer_ne_fail
  | .error (.refused r) => exact .inl ⟨r, rfl, rfl⟩
  | .ok buffer =>
      refine .inr ⟨buffer, rfl, ?_⟩
      by_cases h : c.Reserves alloc
      · exact .inl ⟨h, by rw [ok_bind, Config.withRoom_of_reserves h]; rfl⟩
      · obtain ⟨f, hf, hroom⟩ := Config.withRoom_of_not_reserves h
        exact .inr ⟨h, f, hf, by rw [ok_bind, hroom]; rfl⟩

theorem create_fault : (∃ f, create alloc c = fail f) ↔
    (∃ buffer, c.buffer alloc = .ok buffer) ∧ ¬ c.Reserves alloc := by
  rcases create_cases alloc c with ⟨r, hbuffer, h⟩ | ⟨buffer, hbuffer, ⟨hroom, h⟩ | ⟨hroom, f, -, h⟩⟩
  · rw [h, hbuffer]
    exact iff_of_false nofun nofun
  · rw [h]
    exact iff_of_false nofun fun hnot => hnot.2 hroom
  · exact iff_of_true ⟨f, h⟩ ⟨⟨buffer, hbuffer⟩, hroom⟩

theorem create_refused {r : Refusal} : create alloc c = refuse r ↔ c.buffer alloc = refuse r := by
  rcases create_cases alloc c with ⟨r', hbuffer, h⟩ | ⟨buffer, hbuffer, ⟨-, h⟩ | ⟨-, f, -, h⟩⟩
  · rw [h, hbuffer]
    simp [refuse]
  · rw [h, hbuffer]
    exact iff_of_false nofun nofun
  · rw [h, hbuffer]
    exact iff_of_false nofun nofun

theorem ofRoom_of_create (h : create alloc c = fail f) : f.OfRoom := by
  rcases create_cases alloc c with ⟨r, -, hrefused⟩ | ⟨buffer, -, ⟨-, hcreated⟩ | ⟨-, f', hf', hfault⟩⟩
  · cases hrefused.symm.trans h
  · cases hcreated.symm.trans h
  · cases hfault.symm.trans h
    exact hf'

end Store
end FrameLog
