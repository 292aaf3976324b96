import FrameLog.Proofs.Store.Refinement

/-!
# The table of a store

At every moment the table is the exact partition of the frames that are in the store, and the counters agree with it
(`index_exact`).
-/

namespace FrameLog.Store

open Log

variable {s : Store} {buffer : Buffer} {log : Log}

namespace Holds

variable (h : Holds s buffer log)
include h

theorem tiles : s.buckets.Tiles s.bucketSize log.sizes := by
  have hpos : ∀ x ∈ log.sizes, 0 < x := by
    intro x hx
    obtain ⟨payload, -, rfl⟩ := List.mem_map.mp hx
    exact Nat.lt_of_lt_of_le (by decide) (Nat.le_add_right Prefix.size payload.length)
  rw [h.buckets]
  exact Table.partition_tiles h.bucketSize h.fits h.sum_le hpos

/-- What the data is longer than the prefixes is the payloads. -/
theorem dataEnd_eq : s.dataEnd = 4 * s.frameCount + (log.map List.length).sum := by
  rw [h.dataEnd, h.count, length_bytes, Prefix.size]

theorem averagePayload_eq : s.stats.averagePayload = .ok (if s.frameCount = 0 then .zero .double
    else .div .double (.ofNat .double (log.map List.length).sum) (.ofNat .double s.frameCount)) := by
  by_cases hcount : s.frameCount = 0
  · simp [Stats.averagePayload, stats, hcount]
  · have hend := h.dataEnd_eq
    have hlimit := h.sum_le
    rw [sum_sizes, ← h.dataEnd] at hlimit
    have hmul : Word.mul s.frameCount Prefix.size = .ok (4 * s.frameCount) :=
      Word.mul_eq_ok.mpr ⟨by rw [Prefix.size]; omega, Nat.mul_comm ..⟩
    have hsub : Word.sub s.dataEnd (4 * s.frameCount) = .ok (log.map List.length).sum :=
      Word.sub_eq_ok.mpr ⟨by omega, by omega⟩
    simp [Stats.averagePayload, stats, hcount, hmul, hsub]

end Holds

/-- In every store in use that a run can lead to, the table tiles the frames that its bytes are, and the counters
agree: the data ends with the last bucket and within the buffer, and what it is longer than the prefixes are the
payloads, so that their mean length is there to be computed. -/
theorem index_exact (h : Reachable s) (hlive : s.isDisposed = false) :
    ∃ data log, s.written = .ok data ∧ Framed data log ∧ s.frameCount = log.length ∧
      s.buckets.Tiles s.bucketSize log.sizes ∧ s.dataEnd = log.sizes.sum ∧ s.dataEnd ≤ s.capacity ∧
      4 * s.frameCount ≤ s.dataEnd ∧ s.dataEnd - 4 * s.frameCount = (log.map List.length).sum ∧
      ∃ mean, s.stats.averagePayload = .ok mean := by
  obtain ⟨log, htracks⟩ := h.tracks
  obtain ⟨buffer, hholds⟩ := htracks.holds hlive
  have hend := hholds.dataEnd_eq
  refine ⟨log.bytes, log, hholds.written_eq, framed_iff.mpr ⟨rfl, hholds.readable.short⟩, hholds.count, hholds.tiles,
    ?_, ?_, by omega, by omega, _, hholds.averagePayload_eq⟩
  · rw [hholds.dataEnd, sum_sizes]
  · rw [hholds.dataEnd, hholds.capacity_eq]
    exact hholds.length_le

/-- Three frames, the third alone in the second bucket. -/
theorem index_exact_three_frames :
    let first := ofParts ⟨Bytes.zeros 16, .fixed⟩ 2 .fresh 0 0
    let s := (run [⟨fun _ => false, .extend [[7], [], [8, 9]]⟩] first).2
    s.buckets = [⟨0, 9⟩, ⟨9, 6⟩] ∧
      ∃ data log, s.written = .ok data ∧ Framed data log ∧ s.buckets.Tiles 2 log.sizes := by
  intro first s
  have hbuild : Origin.build (fun _ => false) (.ofBuffer ⟨Bytes.zeros 16, .fixed⟩ 2 (by decide)) = .ok first := rfl
  have hreachable : Reachable s := ⟨_, _, first, _, hbuild, rfl⟩
  have hlive : s.isDisposed = false := by decide +kernel
  have hsize : s.bucketSize = 2 := by decide +kernel
  obtain ⟨data, log, hwritten, hframed, -, htiles, -⟩ := index_exact hreachable hlive
  exact ⟨by decide +kernel, data, log, hwritten, hframed, hsize ▸ htiles⟩

end FrameLog.Store
