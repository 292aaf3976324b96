import FrameLog.Proofs.Store.Index

/-!
# Which payloads go in

Whether a payload goes in, and how far the buffer grows for it, is decided by the sizes of the frames so far, the
capacity and the allocator (`append_exact`).
-/

namespace FrameLog.Store

open Log

/-- What becomes of a payload of so many bytes behind frames of the given sizes: the capacity of the buffer once it is
in, or why it is turned down. -/
def admission (alloc : Allocator) (x : Expansion) (bucketSize capacity : Nat) (sizes : List Nat) (payloadSize : Nat) :
    Except Refusal Nat :=
  let frameSize := Prefix.size + payloadSize
  if Prefix.maxPayload < payloadSize then .error (.frameTooLarge payloadSize)
  else if Bucket.maxLength < Table.openLength bucketSize sizes + frameSize then .error (.frameTooLarge frameSize)
  else Buffer.roomFor alloc x capacity (sizes.sum + frameSize)

variable {s : Store} {buffer : Buffer} {log : Log} {payload : Bytes} {alloc : Allocator} {x : Expansion}
variable {bucketSize capacity payloadSize : Nat}

theorem admission_tooLarge {size : Nat} (h : tooLarge bucketSize log payloadSize = some size) :
    admission alloc x bucketSize capacity log.sizes payloadSize = .error (.frameTooLarge size) := by
  unfold tooLarge at h
  unfold admission
  split at h
  · next hpayload =>
      cases h
      exact if_pos hpayload
  · next hpayload =>
      split at h
      · next hgroup =>
          cases h
          exact (if_neg hpayload).trans (if_pos hgroup)
      · cases h

theorem admission_fits (h : tooLarge bucketSize log payloadSize = none) :
    admission alloc x bucketSize capacity log.sizes payloadSize =
      Buffer.roomFor alloc x capacity (log.bytes.length + (Prefix.size + payloadSize)) := by
  obtain ⟨hpayload, hgroup⟩ := tooLarge_eq_none.mp h
  rw [admission, if_neg (Nat.not_lt.mpr hpayload), if_neg (Nat.not_lt.mpr hgroup), sum_sizes]

theorem roomFor_of_admission {size : Nat}
    (h : admission alloc x bucketSize capacity log.sizes payloadSize = .ok size) :
    Buffer.roomFor alloc x capacity (log.bytes.length + (Prefix.size + payloadSize)) = .ok size := by
  cases hlarge : tooLarge bucketSize log payloadSize with
  | some _ =>
      rw [admission_tooLarge hlarge] at h
      cases h
  | none => rwa [admission_fits hlarge] at h

namespace Holds

variable (h : Holds s buffer log)
include h

theorem append_turnedDown {r : Refusal}
    (hadmission : admission alloc buffer.expansion s.bucketSize buffer.capacity log.sizes payload.length = .error r) :
    append alloc payload s = .error (.refused r) s := by
  cases hlarge : tooLarge s.bucketSize log payload.length with
  | some size =>
      rw [admission_tooLarge hlarge] at hadmission
      cases hadmission
      exact h.append_tooLarge hlarge
  | none =>
      rw [admission_fits hlarge] at hadmission
      exact h.append_refused hlarge (by rw [Buffer.ensureCapacity_eq, hadmission])

theorem append_admitted {size : Nat}
    (hadmission : admission alloc buffer.expansion s.bucketSize buffer.capacity log.sizes payload.length = .ok size) :
    ∃ t c bucket, append alloc payload s = .ok bucket t ∧ Holds t c (log ++ [payload]) ∧
      t.bucketSize = s.bucketSize ∧ c.capacity = size ∧ c.expansion = buffer.expansion ∧
      t.buckets.last = .ok bucket := by
  cases hlarge : tooLarge s.bucketSize log payload.length with
  | some size =>
      rw [admission_tooLarge hlarge] at hadmission
      cases hadmission
  | none =>
      rw [admission_fits hlarge] at hadmission
      obtain ⟨grew, c, hgrew, hgrown, hcapacity⟩ := Buffer.ensureCapacity_grown hadmission
      obtain ⟨t, d, bucket, happend, hholds, hsize, hcapacity', hexpansion, hlast⟩ := h.append_grown hlarge hgrew hgrown
      exact ⟨t, d, bucket, happend, hholds, hsize, hcapacity'.trans hcapacity, hexpansion.trans hgrown.expansion, hlast⟩

/-- The bucket of a payload that has gone in ends with it. -/
theorem bucket_eq {b : Nat} {bucket : Bucket} {earlier : Log} (hlog : log = earlier ++ [payload])
    (hsize : s.bucketSize = b) (hlast : s.buckets.last = .ok bucket) :
    bucket.totalLength = Table.openLength b earlier.sizes + (Prefix.size + payload.length) ∧
      bucket.endOffset = .ok s.dataEnd := by
  subst hlog hsize
  constructor
  · rw [h.buckets, sizes_append, sizes_singleton, Table.last_partition_append h.bucketSize] at hlast
    cases hlast
    rfl
  · obtain ⟨last, hlast', hend⟩ := h.tiles.last
    cases hlast.symm.trans hlast'
    rw [hend, sum_sizes, h.dataEnd]

end Holds

/-- In every store in use that a run can lead to, the frames in it decide what becomes of the next payload: it goes in,
the capacity being what the decision says and its bucket, the last, being longer by its frame, or it is turned down and
the store is as before. -/
theorem append_exact (h : Reachable s) (hlive : s.isDisposed = false) (alloc : Allocator) (payload : Bytes) :
    ∃ buffer data log, s.buffer = some buffer ∧ s.written = .ok data ∧ Framed data log ∧
      s.frameCount = log.length ∧ s.dataEnd = log.sizes.sum ∧
      match admission alloc buffer.expansion s.bucketSize s.capacity log.sizes payload.length with
      | .error r => append alloc payload s = .error (.refused r) s
      | .ok capacity => ∃ bucket t, append alloc payload s = .ok bucket t ∧ t.capacity = capacity ∧
          t.frameCount = s.frameCount + 1 ∧ t.dataEnd = s.dataEnd + (4 + payload.length) ∧
          t.buckets.last = .ok bucket ∧ bucket.endOffset = .ok t.dataEnd ∧
          bucket.totalLength =
            (log.sizes.drop (s.frameCount / s.bucketSize * s.bucketSize)).sum + (4 + payload.length) := by
  obtain ⟨log, htracks⟩ := h.tracks
  obtain ⟨buffer, hholds⟩ := htracks.holds hlive
  refine ⟨buffer, log.bytes, log, hholds.live, hholds.written_eq, hholds.framed, hholds.count,
    by rw [hholds.dataEnd, sum_sizes], ?_⟩
  rw [hholds.capacity_eq]
  cases hadmission : admission alloc buffer.expansion s.bucketSize buffer.capacity log.sizes payload.length with
  | error r => exact hholds.append_turnedDown hadmission
  | ok size =>
      obtain ⟨t, c, bucket, happend, hnext, hsize, hcapacity, -, hlast⟩ := hholds.append_admitted hadmission
      obtain ⟨htotal, hend⟩ := hnext.bucket_eq rfl hsize hlast
      refine ⟨bucket, t, happend, hnext.capacity_eq.trans hcapacity, ?_, ?_, hlast, hend, ?_⟩
      · rw [hnext.count, hholds.count, List.length_append, List.length_singleton]
      · rw [hnext.dataEnd, hholds.dataEnd, bytes_append, List.length_append, bytes_cons, bytes_nil, List.append_nil,
          length_frame, Prefix.size]
      · rw [htotal, Table.openLength, length_sizes, hholds.count, Prefix.size]

/-- Behind a frame of five bytes in a buffer of eight, with one frame to a bucket: the buffer grows to twelve bytes. -/
theorem append_exact_growing :
    let first := ofParts ⟨Bytes.zeros 8, .growable Expansion.defaultFactor⟩ 1 .fresh 0 0
    let s := (run [⟨fun _ => false, .append [7]⟩] first).2
    ∃ bucket t, append (· = 12) [8, 9] s = .ok bucket t ∧ t.capacity = 12 ∧ bucket.totalLength = 6 := by
  intro first s
  have hbuild : Origin.build (fun _ => false)
      (.ofBuffer ⟨Bytes.zeros 8, .growable Expansion.defaultFactor⟩ 1 (by decide)) = .ok first := rfl
  have hreachable : Reachable s := ⟨_, _, first, _, hbuild, rfl⟩
  have hlive : s.isDisposed = false := by decide +kernel
  have hbuffer : s.buffer = some ⟨[1, 0, 0, 0, 7, 0, 0, 0], .growable Expansion.defaultFactor⟩ := by decide +kernel
  have hwritten : s.written = .ok [1, 0, 0, 0, 7] := by decide +kernel
  have hframed : Framed [1, 0, 0, 0, 7] [[7]] := framed_iff.mpr (by decide)
  have hsize : s.bucketSize = 1 ∧ s.capacity = 8 ∧ s.frameCount = 1 := by decide +kernel
  have hgrown : growTo Expansion.defaultFactor 11 8 = 12 := by
    have hstep : growStep Expansion.defaultFactor 8 = 12 := by decide +kernel
    rw [growTo, if_pos (by decide), hstep, growTo, if_neg (by decide)]
  have hadmission : admission (· = 12) (.growable Expansion.defaultFactor) 1 8 (Log.sizes [[7]]) 2 =
      if decide (growTo Expansion.defaultFactor 11 8 = 12) then .ok (growTo Expansion.defaultFactor 11 8)
      else .error (.outOfMemory (growTo Expansion.defaultFactor 11 8) 8) := rfl
  rw [hgrown] at hadmission
  obtain ⟨buffer, data, log, hlive', hdata, hlog, -, -, hverdict⟩ := append_exact hreachable hlive (· = 12) [8, 9]
  cases hlive'.symm.trans hbuffer
  cases hdata.symm.trans hwritten
  obtain rfl := hlog.unique hframed
  rw [hsize.1, hsize.2.1, hsize.2.2] at hverdict
  simp only [List.length_cons, List.length_nil, hadmission] at hverdict
  obtain ⟨bucket, t, happend, hcapacity, -, -, -, -, htotal⟩ := hverdict
  exact ⟨bucket, t, happend, hcapacity, htotal⟩

end FrameLog.Store
