import FrameLog.Store.Append
import FrameLog.Store.Create
import FrameLog.Proofs.Buffer
import FrameLog.Proofs.Cursor
import FrameLog.Proofs.Partition

/-!
# What a store in use holds

`Holds s buffer log` ties the four parts of a store to one log: its bytes stand in front in the buffer, its length is
the frame count, the end of its bytes is the end of the data, and the table is the partition of its frames. Appending
keeps it, with one payload more (`Holds.append_cases`), or turns the payload down and changes nothing.
-/

namespace FrameLog

open Log

/-- The request asks for too much: nothing is corrupt, and no computation has gone wrong. -/
def Failure.Benign : Failure → Prop
  | .fault _ | .refused (.corruptFrame _) => False
  | .refused _ => True

namespace Store

/-- The store is in use and holds the log. -/
structure Holds (s : Store) (buffer : Buffer) (log : Log) : Prop where
  live : s.buffer = some buffer
  front : log.bytes <+: buffer.bytes
  addressable : buffer.capacity ≤ maxAllocation
  bucketSize : 0 < s.bucketSize
  count : s.frameCount = log.length
  dataEnd : s.dataEnd = log.bytes.length
  buckets : s.buckets = Table.partition s.bucketSize log.sizes
  fits : Table.Fits s.bucketSize log.sizes

variable {s : Store} {buffer : Buffer} {log : Log} {payload : Bytes} {alloc : Allocator}

theorem mem_sizes (h : payload ∈ log) : Prefix.size + payload.length ∈ log.sizes := List.mem_map_of_mem h

theorem short_of_fits {b : Nat} (hb : 0 < b) (h : Table.Fits b log.sizes) : ∀ p ∈ log, p.length < 0x80000000 := by
  intro p hp
  have hle := h.le_of_mem hb (mem_sizes hp)
  simp only [Bucket.maxLength] at hle
  omega

theorem openLength_le {b : Nat} (hb : 0 < b) {sizes : List Nat} (h : Table.Fits b sizes) :
    Table.openLength b sizes ≤ Bucket.maxLength := by
  rw [← Table.group_div hb]
  exact h _

/-- The size that keeps a payload of so many bytes out, whatever room there is: its own if no prefix can count it,
else its frame's if that takes the bucket past its limit. -/
def tooLarge (bucketSize : Nat) (log : Log) (payloadSize : Nat) : Option Nat :=
  if Prefix.maxPayload < payloadSize then some payloadSize
  else if Bucket.maxLength < Table.openLength bucketSize log.sizes + (Prefix.size + payloadSize) then
    some (Prefix.size + payloadSize)
  else none

theorem tooLarge_eq_none {b n : Nat} : tooLarge b log n = none ↔
    n ≤ Prefix.maxPayload ∧ Table.openLength b log.sizes + (Prefix.size + n) ≤ Bucket.maxLength := by
  rw [tooLarge]
  split
  · simp; omega
  · split <;> simp <;> omega

def slotBehind (bucketSize : Nat) (log : Log) (payloadSize : Nat) : Slot where
  position := log.bytes.length
  frameSize := Prefix.size + payloadSize
  total := Table.openLength bucketSize log.sizes + (Prefix.size + payloadSize)
  opensBucket := Table.opens bucketSize log.length

theorem extend_cons (alloc : Allocator) (payload : Bytes) (rest : List Bytes) (s : Store) :
    extend alloc (payload :: rest) s = match append alloc payload s with
      | .error e t => .error e t
      | .ok _ t => match extend alloc rest t with
        | .ok n u => .ok (n + 1) u
        | .error e u => .error e u := by
  rw [extend, Action.bind_apply]
  cases append alloc payload s with
  | error e t => rfl
  | ok bucket t =>
      simp only [Action.bind_apply]
      cases extend alloc rest t <;> rfl

/-- A store just made, or made empty. -/
theorem holds_ofParts {b : Nat} (hb : 0 < b) (hle : buffer.capacity ≤ maxAllocation) :
    Holds (ofParts buffer b .fresh 0 0) buffer [] where
  live := rfl
  front := List.nil_prefix
  addressable := hle
  bucketSize := hb
  count := rfl
  dataEnd := rfl
  buckets := (Table.partition_nil hb).symm
  fits := Table.fits_nil b

namespace Holds

variable (h : Holds s buffer log)
include h

theorem length_le : log.bytes.length ≤ buffer.capacity := h.front.length_le

theorem readable : log.Readable :=
  ⟨short_of_fits h.bucketSize h.fits, Nat.le_trans h.length_le h.addressable⟩

theorem framed : Framed log.bytes log := framed_iff.mpr ⟨rfl, h.readable.short⟩

theorem take_eq : buffer.bytes.take s.dataEnd = log.bytes := by
  rw [h.dataEnd]
  exact (List.prefix_iff_eq_take.mp h.front).symm

theorem sum_le : log.sizes.sum ≤ Word.limit := by
  rw [sum_sizes]
  exact Nat.le_trans h.readable.addressable (by decide)

/-- Far from so many frames are there that they could not be counted. -/
theorem length_lt_limit : log.length < Word.limit := by
  have hlength := length_bytes log
  have haddressable := h.readable.addressable
  simp only [Prefix.size, maxAllocation] at hlength haddressable
  rw [Word.limit]
  omega

theorem isDisposed_eq : s.isDisposed = false := by
  simp [isDisposed, h.live]

theorem capacity_eq : s.capacity = buffer.capacity := by
  simp [Store.capacity, h.live]

theorem setBuffer {c : Buffer} (hfront : log.bytes <+: c.bytes) (hle : c.capacity ≤ maxAllocation) :
    Holds { s with buffer := some c } c log :=
  { h with live := rfl, front := hfront, addressable := hle }

/-! ## Finding a place -/

theorem div_beq : (s.frameCount / s.bucketSize == s.buckets.length) = Table.opens s.bucketSize log.length := by
  rw [h.buckets, h.count, ← length_sizes]
  exact Table.div_beq_length h.bucketSize log.sizes

theorem last_eq : ∃ last, s.buckets.last = .ok last ∧ last.endOffset = .ok log.bytes.length ∧
    (if Table.opens s.bucketSize log.length then Bucket.first else last).totalLength =
      Table.openLength s.bucketSize log.sizes := by
  obtain ⟨last, hlast, hgroup, hend⟩ := Table.getLast?_partition h.bucketSize log.sizes
  have htotal := Table.totalLength_open h.bucketSize log.sizes
  have hlimit := h.sum_le
  refine ⟨last, ?_, ?_, ?_⟩
  · rw [h.buckets]
    exact Table.last_eq_ok.mpr hlast
  · rw [← sum_sizes, ← hend]
    exact Word.add_eq_ok.mpr ⟨by omega, rfl⟩
  · rwa [← hgroup, length_sizes] at htotal

theorem slotFor_eq (payloadSize : Nat) :
    s.slotFor payloadSize = match tooLarge s.bucketSize log payloadSize with
      | some size => refuse (.frameTooLarge size)
      | none => .ok (slotBehind s.bucketSize log payloadSize) := by
  obtain ⟨last, hlast, hend, htotal⟩ := h.last_eq
  by_cases hpayload : payloadSize ≤ Prefix.maxPayload
  · have hsize : Word.add Prefix.size payloadSize = .ok (Prefix.size + payloadSize) :=
      Word.add_eq_ok.mpr ⟨Nat.le_trans (Nat.add_le_add_left hpayload _) (by decide), rfl⟩
    have hdiv : Word.div s.frameCount s.bucketSize = .ok (s.frameCount / s.bucketSize) :=
      Word.div_eq_ok.mpr ⟨Nat.ne_of_gt h.bucketSize, rfl⟩
    have hopen := openLength_le h.bucketSize h.fits
    have hlimit : Table.openLength s.bucketSize log.sizes + (Prefix.size + payloadSize) ≤ Word.limit :=
      Nat.le_trans (Nat.add_le_add hopen (Nat.add_le_add_left hpayload _)) (by decide)
    rw [← htotal] at hlimit
    have hlength := Bucket.lengthAfter_eq _ hlimit
    rw [htotal] at hlength
    rw [slotFor, require_pos hpayload, ok_bind, hsize, ok_bind, hdiv, ok_bind, hlast, ok_bind, h.div_beq, hlength,
      tooLarge, if_neg (Nat.not_lt.mpr hpayload)]
    by_cases hfit : Table.openLength s.bucketSize log.sizes + (Prefix.size + payloadSize) ≤ Bucket.maxLength
    · rw [if_pos hfit, if_neg (Nat.not_lt.mpr hfit), ok_bind, hend]
      rfl
    · rw [if_neg hfit, if_pos (Nat.not_le.mp hfit)]
      rfl
  · rw [slotFor, require_neg hpayload, tooLarge, if_pos (Nat.not_le.mp hpayload)]
    rfl

theorem reserve_tooLarge {payloadSize size : Nat} (hlarge : tooLarge s.bucketSize log payloadSize = some size) :
    reserve alloc payloadSize s = .error (.refused (.frameTooLarge size)) s := by
  have hslot := h.slotFor_eq payloadSize
  rw [hlarge] at hslot
  simp [reserve, Action.bind_apply, require, h.isDisposed_eq, hslot]

theorem reserve_fits {payloadSize : Nat} (hfit : tooLarge s.bucketSize log payloadSize = none) :
    reserve alloc payloadSize s =
      match Buffer.ensureCapacity alloc (log.bytes.length + (Prefix.size + payloadSize)) buffer with
      | .ok _ c => .ok (slotBehind s.bucketSize log payloadSize) { s with buffer := some c }
      | .error e c => .error e { s with buffer := some c } := by
  have hslot := h.slotFor_eq payloadSize
  have hbytes := h.readable.addressable
  obtain ⟨_, htotal⟩ := tooLarge_eq_none.mp hfit
  have hstop : Word.add (slotBehind s.bucketSize log payloadSize).position
      (slotBehind s.bucketSize log payloadSize).frameSize =
        .ok (log.bytes.length + (Prefix.size + payloadSize)) := by
    refine Word.add_eq_ok.mpr ⟨?_, rfl⟩
    have hframe := Nat.le_trans (Nat.le_add_left ..) htotal
    exact Nat.le_trans (Nat.add_le_add hbytes hframe) (by decide)
  rw [hfit] at hslot
  simp only [reserve, Action.bind_apply, Action.get_apply, require, h.isDisposed_eq, Bool.not_false, ↓reduceIte,
    Action.lift_ok_apply, hslot, hstop, onBuffer, h.live]
  cases Buffer.ensureCapacity alloc (log.bytes.length + (Prefix.size + payloadSize)) buffer <;> rfl

/-! ## Writing the frame -/

/-- With room behind the bytes, the payload's frame goes there and the table counts it. -/
theorem commit_fits (hfit : tooLarge s.bucketSize log payload.length = none)
    (hroom : log.bytes.length + (Prefix.size + payload.length) ≤ buffer.capacity) :
    ∃ t c bucket, commit (slotBehind s.bucketSize log payload.length) payload s = .ok bucket t ∧
      Holds t c (log ++ [payload]) ∧ t.bucketSize = s.bucketSize ∧ c.capacity = buffer.capacity ∧
      c.expansion = buffer.expansion ∧ t.buckets.last = .ok bucket := by
  obtain ⟨hpayload, htotal⟩ := tooLarge_eq_none.mp hfit
  have hshort : payload.length < 0x80000000 := Nat.lt_of_le_of_lt hpayload (by decide)
  have hbytes := h.readable.addressable
  have hlog := length_bytes log
  have hcap := h.addressable
  simp only [maxAllocation, Prefix.size] at hbytes hlog hcap hroom
  -- Each step goes through: the write stays within the buffer, and no number leaves its word.
  have hsigned : Word.toSigned32 payload.length = .ok (payload.length : Int) :=
    Word.toSigned32_eq_ok.mpr ⟨hshort, rfl⟩
  obtain ⟨c, hwrite, hfront, hcapacity, hexpansion⟩ := Buffer.write_behind (frame payload) h.front
    (by rw [length_frame]; exact hroom)
  obtain ⟨opened, hopen, hset⟩ := bind_eq_ok.mp
    (Table.enter_partition (x := Prefix.size + payload.length) h.bucketSize h.sum_le)
  rw [length_sizes, ← h.buckets] at hopen
  have hcount : Word.add s.frameCount 1 = .ok (log.length + 1) :=
    Word.add_eq_ok.mpr ⟨by rw [h.count, Word.limit]; omega, by rw [h.count]⟩
  have hend : Word.add s.dataEnd (Prefix.size + payload.length) =
      .ok (log.bytes.length + (Prefix.size + payload.length)) :=
    Word.add_eq_ok.mpr ⟨by rw [h.dataEnd, Word.limit, Prefix.size]; omega, by rw [h.dataEnd]⟩
  have hsizes : (log ++ [payload]).sizes = log.sizes ++ [Prefix.size + payload.length] := sizes_append ..
  obtain ⟨bucket, hlast, -⟩ := Table.getLast?_partition h.bucketSize (log ++ [payload]).sizes
  rw [← Table.last_eq_ok, hsizes] at hlast
  refine ⟨{ s with
    buffer := some c
    buckets := Table.partition s.bucketSize (log.sizes ++ [Prefix.size + payload.length])
    frameCount := log.length + 1
    dataEnd := log.bytes.length + (Prefix.size + payload.length) },
    c, bucket, ?_, ?_, rfl, hcapacity, hexpansion, hlast⟩
  · rw [frame] at hwrite
    simp only [commit, Action.bind_apply, hsigned, Action.lift_ok_apply, onBuffer, h.live, slotBehind, hwrite,
      Action.get_apply, hopen, hset, hcount, hend, Action.set_apply, hlast]
  · exact {
      live := rfl
      front := by simpa using hfront
      addressable := hcapacity ▸ h.addressable
      bucketSize := h.bucketSize
      count := by simp
      dataEnd := by simp
      buckets := by rw [hsizes]
      fits := by rw [hsizes]; exact (Table.fits_append h.bucketSize).mpr ⟨h.fits, htotal⟩ }

/-! ## Appending -/

theorem setBuffer_self : { s with buffer := some buffer } = s := by
  rw [← h.live]

theorem append_tooLarge {size : Nat} (hlarge : tooLarge s.bucketSize log payload.length = some size) :
    append alloc payload s = .error (.refused (.frameTooLarge size)) s := by
  simp only [append, Action.bind_apply, h.reserve_tooLarge hlarge]

theorem append_refused (hfit : tooLarge s.bucketSize log payload.length = none) {e : Failure}
    (hfull : Buffer.ensureCapacity alloc (log.bytes.length + (Prefix.size + payload.length)) buffer =
      .error e buffer) : append alloc payload s = .error e s := by
  simp only [append, Action.bind_apply, h.reserve_fits hfit, hfull, h.setBuffer_self]

theorem append_grown (hfit : tooLarge s.bucketSize log payload.length = none) {grew : Bool} {c : Buffer}
    (hgrew : Buffer.ensureCapacity alloc (log.bytes.length + (Prefix.size + payload.length)) buffer = .ok grew c)
    (hgrown : Buffer.Grown buffer (log.bytes.length + (Prefix.size + payload.length)) c) :
    ∃ t d bucket, append alloc payload s = .ok bucket t ∧ Holds t d (log ++ [payload]) ∧
      t.bucketSize = s.bucketSize ∧ d.capacity = c.capacity ∧ d.expansion = c.expansion ∧
      t.buckets.last = .ok bucket := by
  have hcap : c.capacity ≤ maxAllocation :=
    Nat.le_trans hgrown.addressable (Nat.max_le.mpr ⟨h.addressable, Nat.le_refl _⟩)
  have hgrownStore := h.setBuffer (h.front.trans hgrown.front) hcap
  obtain ⟨t, d, bucket, hcommit, hrest⟩ := hgrownStore.commit_fits hfit hgrown.room
  refine ⟨t, d, bucket, ?_, hrest⟩
  simp only [append, Action.bind_apply, h.reserve_fits hfit, hgrew]
  exact hcommit

/-- A payload that fits by its length goes in, or there is no room for it and nothing changes. -/
theorem append_fits (alloc : Allocator) (hfit : tooLarge s.bucketSize log payload.length = none) :
    (∃ t d bucket, append alloc payload s = .ok bucket t ∧ Holds t d (log ++ [payload]) ∧
      t.bucketSize = s.bucketSize ∧ t.buckets.last = .ok bucket) ∨
      ∃ required, append alloc payload s = .error (.refused (.outOfMemory required buffer.capacity)) s := by
  cases hroom : Buffer.roomFor alloc buffer.expansion buffer.capacity
      (log.bytes.length + (Prefix.size + payload.length)) with
  | ok size =>
      obtain ⟨grew, c, hgrew, hgrown, -⟩ := Buffer.ensureCapacity_grown hroom
      obtain ⟨t, d, bucket, happend, hholds, hsize, -, -, hlast⟩ := h.append_grown hfit hgrew hgrown
      exact .inl ⟨t, d, bucket, happend, hholds, hsize, hlast⟩
  | error r =>
      obtain ⟨required, rfl⟩ := Buffer.roomFor_eq_error hroom
      exact .inr ⟨required, h.append_refused hfit (by rw [Buffer.ensureCapacity_eq, hroom])⟩

/-- Appending puts the payload behind the log, or turns it down and changes nothing. -/
theorem append_cases (alloc : Allocator) (payload : Bytes) :
    (∃ t d bucket, append alloc payload s = .ok bucket t ∧ Holds t d (log ++ [payload]) ∧
      t.bucketSize = s.bucketSize ∧ t.buckets.last = .ok bucket) ∨
      ∃ e, append alloc payload s = .error e s ∧ e.Benign := by
  cases hlarge : tooLarge s.bucketSize log payload.length with
  | some size => exact .inr ⟨_, h.append_tooLarge hlarge, trivial⟩
  | none =>
      rcases h.append_fits alloc hlarge with hdone | ⟨required, hfull⟩
      · exact .inl hdone
      · exact .inr ⟨_, hfull, trivial⟩

/-! ## Starting over -/

theorem reset_apply (clearBuffer : Bool) : reset clearBuffer s = .ok ⟨⟩
    (ofParts (if clearBuffer then { buffer with bytes := Bytes.zeros buffer.capacity } else buffer)
      s.bucketSize .fresh 0 0) := by
  cases clearBuffer with
  | false => simp [reset, Action.bind_apply, onBuffer, h.live, ofParts]
  | true => simp [reset, Action.bind_apply, onBuffer, h.live, Buffer.zero_apply, ofParts]

theorem reset_holds (clearBuffer : Bool) : ∃ t c, reset clearBuffer s = .ok ⟨⟩ t ∧ Holds t c [] := by
  refine ⟨_, _, h.reset_apply clearBuffer, holds_ofParts h.bucketSize ?_⟩
  rw [Buffer.capacity_zeroedIf]
  exact h.addressable

theorem clear_none (alloc : Allocator) : clear alloc none s = .ok ⟨⟩ (ofParts buffer s.bucketSize .fresh 0 0) := by
  have hreset := h.reset_apply false
  simp [clear, Action.bind_apply, hreset]

theorem clear_some (alloc : Allocator) (size : Nat) : clear alloc (some size) s =
    if size ≤ maxAllocation ∧ (size ≤ buffer.capacity ∨ alloc size) then
      .ok ⟨⟩ (ofParts { buffer with bytes := buffer.bytes.take size ++ Bytes.zeros (size - buffer.capacity) }
        s.bucketSize .fresh 0 0)
    else .error (.refused (.outOfMemory size buffer.capacity)) (ofParts buffer s.bucketSize .fresh 0 0) := by
  have hreset := h.reset_apply false
  have hresize := Buffer.resizeExact_eq alloc size buffer
  simp only [clear, Action.bind_apply, hreset, onBuffer, ofParts, Bool.false_eq_true, ↓reduceIte, hresize]
  by_cases hsize : size ≤ maxAllocation ∧ (size ≤ buffer.capacity ∨ alloc size)
  · simp only [if_pos hsize]
  · simp only [if_neg hsize]

/-- Clearing leaves no frame, also where the buffer keeps its size because the new one is turned down. -/
theorem clear_cases (alloc : Allocator) (capacity : Option Nat) : ∃ t c, Holds t c [] ∧
    (clear alloc capacity s = .ok ⟨⟩ t ∨ ∃ e, clear alloc capacity s = .error e t ∧ e.Benign) := by
  have hkept := holds_ofParts h.bucketSize h.addressable
  cases capacity with
  | none => exact ⟨_, buffer, hkept, .inl (h.clear_none alloc)⟩
  | some size =>
      have hclear := h.clear_some alloc size
      split at hclear
      · next hsize =>
          refine ⟨_, _, holds_ofParts h.bucketSize ?_, .inl hclear⟩
          rw [Buffer.capacity_resized]
          exact hsize.1
      · exact ⟨_, buffer, hkept, .inr ⟨_, hclear, trivial⟩⟩

end Holds
end Store
end FrameLog
