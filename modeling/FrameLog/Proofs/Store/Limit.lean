import FrameLog.Proofs.Store.Capacity
import FrameLog.Proofs.Store.Creation

/-!
# How much goes into a store

As long as memory is granted, only the length of all the frames together decides: what stays within the limit of the
buffer goes in (`Holds.takes_within`), and the first payload that passes it is turned down (`Holds.stops_past`).
-/

namespace FrameLog

namespace Buffer

variable {alloc : Allocator} {x : Expansion} {capacity target : Nat}

/-- The most that a buffer can come to hold. -/
def limit (x : Expansion) (capacity : Nat) : Nat := if x.allowed then maxAllocation else capacity

/-- A buffer that may grow gets all the memory that it can ask for. -/
def Granted (alloc : Allocator) (x : Expansion) : Prop := x.allowed = true → ∀ size ≤ maxAllocation, alloc size = true

/-- Growing takes nothing from the limit, and adds nothing to it. -/
theorem limit_grown {b c : Buffer} {peak : Nat} (hexpansion : c.expansion = b.expansion)
    (hcapacity : c.capacity = stretched b.expansion b.capacity peak) :
    limit c.expansion c.capacity = limit b.expansion b.capacity := by
  rw [hexpansion, hcapacity]
  unfold limit stretched
  split <;> rfl

theorem roomFor_granted (h : Granted alloc x) (hcapacity : capacity ≤ maxAllocation) (target : Nat) :
    roomFor alloc x capacity target = if target ≤ limit x capacity then .ok (stretched x capacity target)
      else .error (.outOfMemory target capacity) := by
  unfold roomFor limit
  by_cases hroom : target ≤ capacity
  · have hlimit : target ≤ if x.allowed then maxAllocation else capacity := by
      split <;> omega
    rw [if_pos hroom, if_pos hlimit, stretched_of_le x hroom]
  rw [if_neg hroom]
  cases hallowed : x.allowed with
  | false => simp [hroom]
  | true =>
      by_cases htarget : target ≤ maxAllocation
      · have hsize := Nat.le_trans (growTo_le x.factor htarget capacity) (Nat.max_le.mpr ⟨hcapacity, Nat.le_refl _⟩)
        simp [stretched, hallowed, htarget, Nat.not_lt.mpr htarget, h hallowed _ hsize]
      · simp [htarget, Nat.not_le.mp htarget]

end Buffer

/-- Where the bytes of a log pass a limit, there is a first frame that does. -/
theorem Log.exists_past {log : Log} {limit : Nat} (h : limit < log.bytes.length) :
    ∃ i < log.length, log.offset i ≤ limit ∧ limit < log.offset (i + 1) := by
  rcases log.boundary_or_within (Nat.le_of_lt h) with ⟨i, hi, rfl⟩ | ⟨i, hi, hfrom, hto⟩
  · have hi : i < log.length := by
      refine Nat.lt_of_le_of_ne hi ?_
      rintro rfl
      exact absurd log.offset_length (Nat.ne_of_lt h)
    refine ⟨i, hi, Nat.le_refl _, ?_⟩
    rw [offset_succ hi]
    exact Nat.lt_add_of_pos_right (Nat.add_pos_left (by decide) _)
  · exact ⟨i, hi, Nat.le_of_lt hfrom, hto⟩

namespace Store

open Log Buffer

variable {s : Store} {b : Buffer} {log : Log} {payload : Bytes} {payloads : List Bytes} {alloc : Allocator}

theorem bucketSize_of_create {config : Config} (h : create alloc config = .ok s) :
    s.bucketSize = config.bucketSize := by
  rcases create_cases alloc config with ⟨r, -, hrefused⟩ | ⟨buffer, -, ⟨-, hcreated⟩ | ⟨-, f, -, hfault⟩⟩
  · cases hrefused.symm.trans h
  · cases hcreated.symm.trans h
    rfl
  · cases hfault.symm.trans h

/-- Behind a log whose bucket has room, the bytes of all frames decide. -/
theorem Holds.admission_granted (h : Holds s b log) (hgranted : Granted alloc b.expansion)
    (hfits : Table.Fits s.bucketSize (sizes (log ++ [payload]))) :
    admission alloc b.expansion s.bucketSize b.capacity log.sizes payload.length =
      if (sizes (log ++ [payload])).sum ≤ limit b.expansion b.capacity then
        .ok (stretched b.expansion b.capacity (sizes (log ++ [payload])).sum)
      else .error (.outOfMemory (sizes (log ++ [payload])).sum b.capacity) := by
  rw [sizes_append, sizes_singleton] at hfits
  have hgroup := ((Table.fits_append h.bucketSize).mp hfits).2
  have hpayload : payload.length ≤ Prefix.maxPayload := by
    simp only [Bucket.maxLength, Prefix.size, Prefix.maxPayload] at hgroup ⊢
    omega
  have htotal : (sizes (log ++ [payload])).sum = log.bytes.length + (Prefix.size + payload.length) := by
    rw [sizes_append, List.sum_append, sum_sizes, sizes_singleton, List.sum_singleton]
  rw [admission_fits (tooLarge_eq_none.mpr ⟨hpayload, hgroup⟩), roomFor_granted hgranted h.addressable, htotal]

theorem Holds.append_past (h : Holds s b log) (hgranted : Granted alloc b.expansion)
    (hfits : Table.Fits s.bucketSize (sizes (log ++ [payload])))
    (hpast : limit b.expansion b.capacity < (sizes (log ++ [payload])).sum) :
    append alloc payload s = .error (.refused (.outOfMemory (sizes (log ++ [payload])).sum b.capacity)) s := by
  have hadmission := h.admission_granted hgranted hfits
  rw [if_neg (Nat.not_le.mpr hpast)] at hadmission
  exact h.append_turnedDown hadmission

theorem Holds.takes_within (h : Holds s b log) (hgranted : Granted alloc b.expansion)
    (hfits : Table.Fits s.bucketSize (sizes (log ++ payloads)))
    (hwithin : (sizes (log ++ payloads)).sum ≤ limit b.expansion b.capacity) :
    ∃ t, Takes alloc s payloads t ∧ t.bucketSize = s.bucketSize := by
  induction payloads generalizing s b log with
  | nil => exact ⟨s, .nil s, rfl⟩
  | cons payload rest ih =>
      rw [List.append_cons] at hfits hwithin
      have hfirst : (sizes (log ++ [payload])).sum ≤ limit b.expansion b.capacity := by
        rw [sizes_append (log ++ [payload]), List.sum_append] at hwithin
        exact Nat.le_trans (Nat.le_add_right ..) hwithin
      have hadmission := h.admission_granted hgranted (Table.Fits.of_append h.bucketSize (sizes_append .. ▸ hfits))
      rw [if_pos hfirst] at hadmission
      obtain ⟨t, c, bucket, happend, hholds, hsize, hcapacity, hexpansion, -⟩ := h.append_admitted hadmission
      obtain ⟨u, htakes, hsize'⟩ :=
        ih hholds (hexpansion ▸ hgranted) (hsize ▸ hfits) (limit_grown hexpansion hcapacity ▸ hwithin)
      exact ⟨u, .cons happend htakes, hsize'.trans hsize⟩

/-- What a store that was empty has taken within the limit leaves it with no more room than was needed. -/
theorem Holds.fills_within (h : Holds s b []) (hgranted : Granted alloc b.expansion)
    (hfits : Table.Fits s.bucketSize log.sizes) (hwithin : log.sizes.sum ≤ limit b.expansion b.capacity) :
    ∃ t c, Takes alloc s log t ∧ t.bucketSize = s.bucketSize ∧ Holds t c log ∧ c.expansion = b.expansion ∧
      c.capacity = stretched b.expansion b.capacity log.sizes.sum := by
  obtain ⟨t, htakes, hsize⟩ := h.takes_within hgranted hfits hwithin
  obtain ⟨c, hholds, hexpansion, hcapacity⟩ := htakes.grown h
  rw [List.nil_append] at hholds
  rw [hholds.dataEnd, ← sum_sizes] at hcapacity
  exact ⟨t, c, htakes, hsize, hholds, hexpansion, hcapacity⟩

/-- The first payload that passes the limit is turned down, when those before it are in. -/
theorem Holds.stops_past (h : Holds s b []) (hgranted : Granted alloc b.expansion)
    (hfits : Table.Fits s.bucketSize log.sizes) (hpast : limit b.expansion b.capacity < log.sizes.sum) :
    ∃ i, ∃ hi : i < log.length, (log.sizes.take i).sum ≤ limit b.expansion b.capacity ∧
      limit b.expansion b.capacity < (log.sizes.take (i + 1)).sum ∧ ∃ t, Takes alloc s (log.take i) t ∧
        append alloc log[i] t = .error (.refused (.outOfMemory (log.sizes.take (i + 1)).sum
          (stretched b.expansion b.capacity (log.sizes.take i).sum))) t := by
  rw [sum_sizes] at hpast
  obtain ⟨i, hi, hfrom, hto⟩ := exists_past hpast
  rw [offset_eq_sum] at hfrom hto
  have hnext : log.sizes.take (i + 1) = sizes (log.take i ++ [log[i]]) := by
    rw [← List.take_succ_eq_append_getElem hi, sizes_take]
  have hfits' : Table.Fits s.bucketSize (sizes (log.take i ++ [log[i]]) ++ log.sizes.drop (i + 1)) := by
    rwa [← hnext, List.take_append_drop]
  have hfits' := hfits'.of_append h.bucketSize
  have hfront := Table.Fits.of_append h.bucketSize (sizes_append .. ▸ hfits')
  rw [← sizes_take] at hfrom
  obtain ⟨t, c, htakes, hsize, hholds, hexpansion, hcapacity⟩ := h.fills_within hgranted hfront hfrom
  have hlast := hholds.append_past (hexpansion ▸ hgranted) (hsize ▸ hfits')
    (by rwa [← hnext, limit_grown hexpansion hcapacity])
  rw [← hnext, hcapacity, sizes_take] at hlast
  rw [sizes_take] at hfrom
  exact ⟨i, hi, hfrom, hto, t, htakes, hlast⟩

end Store
end FrameLog
