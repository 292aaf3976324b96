import FrameLog.Proofs.Store.Scan

/-!
# Adopting bytes

A store can be made of bytes that hold frames, over the buffer they stand in or over a copy. Either way it comes to
what the bytes alone decide (`adoption_exact`).
-/

namespace FrameLog

open Log

variable {config : Config}

theorem Config.validate_eq_ok : config.validate = .ok () ↔
    config.bucketSize ≠ 0 ∧ config.initialCapacity ≤ maxAllocation ∧ config.expansion.validate = .ok () := by
  simp [validate, validateBucketSize, bind_eq_ok]

namespace Store

variable {b : Nat} {buffer : Buffer} {log : Log} {data : Bytes} {alloc : Allocator} {build : Outcome Store}

/-- The ways to make a store of bytes, each with the buffer that it gets: over a buffer in which they stand in front,
and over a copy that the allocator grants. -/
inductive Adoption (data : Bytes) (bucketSize : Nat) : Buffer → Outcome Store → Prop
  | inPlace {buffer : Buffer} {dataLength : Nat} (front : buffer.bytes.take dataLength = data)
      (within : dataLength ≤ buffer.capacity) (addressable : buffer.capacity ≤ maxAllocation)
      (positive : 0 < bucketSize) : Adoption data bucketSize buffer (adopt buffer dataLength bucketSize)
  | copy {alloc : Allocator} {config : Config} (valid : config.validate = .ok ())
      (size : config.bucketSize = bucketSize)
      (granted : Buffer.request alloc 0 (max config.initialCapacity data.length) = .ok ()) :
      Adoption data bucketSize ⟨data ++ Bytes.zeros (config.initialCapacity - data.length), config.expansion⟩
        (ofBytes alloc data config)

/-! ## From the scan to the store -/

theorem adopt_eq (hb : 0 < b) {dataLength : Nat} (h : dataLength ≤ buffer.capacity) :
    adopt buffer dataLength b = (scan b ⟨buffer.bytes.take dataLength, 0⟩ .fresh 0).map
      fun x => ofParts buffer b x.1 x.2 dataLength := by
  have hsize : Config.validateBucketSize b = .ok () := require_pos (Nat.ne_of_gt hb)
  rw [adopt, hsize, ok_bind, require_pos h, ok_bind]
  cases scan b ⟨buffer.bytes.take dataLength, 0⟩ .fresh 0 with
  | error e => rfl
  | ok x => rfl

theorem ofBytes_eq (hvalid : config.validate = .ok ())
    (hgranted : Buffer.request alloc 0 (max config.initialCapacity data.length) = .ok ()) :
    ofBytes alloc data config =
      adopt ⟨data ++ Bytes.zeros (config.initialCapacity - data.length), config.expansion⟩ data.length
        config.bucketSize := by
  have hzeros : (Bytes.zeros (max config.initialCapacity data.length)).drop data.length =
      Bytes.zeros (config.initialCapacity - data.length) := by
    rw [Bytes.zeros, List.drop_replicate, Bytes.zeros]
    congr 1
    omega
  have hbuffer := Buffer.withCapacity_eq (Config.validate_eq_ok.mp hvalid).2.2 hgranted
  simp only [ofBytes, hvalid, ok_bind, hbuffer, hzeros]

namespace Adoption

variable (h : Adoption data b buffer build)
include h

theorem conditions : 0 < b ∧ data <+: buffer.bytes ∧ buffer.capacity ≤ maxAllocation := by
  cases h with
  | inPlace front _ addressable positive => exact ⟨positive, front ▸ List.take_prefix .., addressable⟩
  | @copy alloc config valid size granted =>
      obtain ⟨hsize, hcapacity, -⟩ := Config.validate_eq_ok.mp valid
      have hgranted := Buffer.request_eq_ok.mp granted
      refine ⟨size ▸ Nat.pos_of_ne_zero hsize, List.prefix_append .., ?_⟩
      simp only [Buffer.capacity, List.length_append, Bytes.zeros, List.length_replicate]
      omega

theorem length_le : data.length ≤ maxAllocation :=
  Nat.le_trans h.conditions.2.1.length_le h.conditions.2.2

theorem build_eq : build = (scan b ⟨data, 0⟩ .fresh 0).map fun x => ofParts buffer b x.1 x.2 data.length := by
  cases h with
  | inPlace front within _ positive =>
      rw [adopt_eq positive within, ← front, List.length_take_of_le within]
  | @copy alloc config valid size granted =>
      obtain ⟨hsize, -⟩ := Config.validate_eq_ok.mp valid
      subst size
      rw [ofBytes_eq valid granted, adopt_eq (Nat.pos_of_ne_zero hsize) (by simp [Buffer.capacity]), List.take_left]

theorem holds (hframed : Framed data log) (hfits : Table.Fits b log.sizes) :
    Holds (ofParts buffer b (Table.partition b log.sizes) log.length data.length) buffer log := by
  obtain ⟨hb, hfront, haddressable⟩ := h.conditions
  exact {
    live := rfl
    front := hframed.eq_bytes ▸ hfront
    addressable := haddressable
    bucketSize := hb
    count := rfl
    dataEnd := congrArg List.length hframed.eq_bytes
    buckets := rfl
    fits := hfits }

theorem eq_ok_iff {s : Store} : build = .ok s ↔ ∃ log, Framed data log ∧ Table.Fits b log.sizes ∧
    s = ofParts buffer b (Table.partition b log.sizes) log.length data.length := by
  rw [h.build_eq]
  constructor
  · intro hbuild
    cases hscan : scan b ⟨data, 0⟩ .fresh 0 with
    | error e =>
        rw [hscan] at hbuild
        cases hbuild
    | ok x =>
        rw [hscan] at hbuild
        cases hbuild
        obtain ⟨log, hlog, hfits, rfl⟩ := (scan_eq_ok_iff h.conditions.1 h.length_le).mp hscan
        exact ⟨log, hlog, hfits, rfl⟩
  · rintro ⟨log, hlog, hfits, rfl⟩
    rw [scan_framed h.conditions.1 hlog hfits h.length_le]
    rfl

theorem eq_error_iff {e : Failure} : build = .error e ↔ ∃ r, FirstFault b data r ∧ e = .refused r := by
  rw [h.build_eq, ← scan_eq_error_iff h.conditions.1 h.length_le]
  cases scan b ⟨data, 0⟩ .fresh 0 with
  | error e => simp [Except.map]
  | ok x => simp [Except.map]

/-- Frames cut off between two of them are adopted up to there; cut off within one, the part of it is a fault. -/
theorem truncated {s : Store} {m : Nat} {other : Buffer} {cut : Outcome Store} (hbuild : build = .ok s)
    (hlog : Framed data log) (hm : m ≤ data.length) (hcut : Adoption (data.take m) b other cut) :
    ((∃ t, cut = .ok t) ↔ ∃ k ≤ log.length, m = log.offset k) ∧
      ((¬ ∃ k ≤ log.length, m = log.offset k) →
        ∃ k < log.length, log.offset k < m ∧ m < log.offset (k + 1) ∧ cut = refuse (.corruptFrame (log.offset k))) := by
  obtain ⟨log', hlog', hfits, -⟩ := h.eq_ok_iff.mp hbuild
  obtain rfl := hlog.unique hlog'
  have hsplit (k : Nat) : Table.Fits b (Log.sizes (log.take k)) := by
    rw [← List.take_append_drop k log, sizes_append] at hfits
    exact hfits.of_append h.conditions.1
  have hwithin {k : Nat} (hk : k < log.length) (hlt : log.offset k < m) (hlt' : m < log.offset (k + 1)) :
      cut = refuse (.corruptFrame (log.offset k)) := by
    have hdata : data.take m = data.take (log.offset k) ++ (frame log[k]).take (m - log.offset k) := by
      rw [hlog.eq_bytes, take_within hk (Nat.le_of_lt hlt) hlt', take_offset]
    have hrest : Broken ((frame log[k]).take (m - log.offset k)) := by
      rw [offset_succ hk] at hlt'
      have hlength : ((frame log[k]).take (m - log.offset k)).length = m - log.offset k :=
        List.length_take_of_le (by rw [length_frame]; omega)
      refine broken_of_prefix (List.take_prefix ..) ?_ ?_ ((framed_iff.mp hlog).2 _ (List.getElem_mem hk))
      · exact List.ne_nil_of_length_pos (by omega)
      · rw [hlength, length_frame]
        omega
    have hfault := FirstFault.broken (hlog.take k) (hsplit k) hrest
    rw [← hdata, List.length_take_of_le (Nat.le_trans (Nat.le_of_lt hlt) hm)] at hfault
    exact hcut.eq_error_iff.mpr ⟨_, hfault, rfl⟩
  refine ⟨⟨?_, ?_⟩, ?_⟩
  · rintro ⟨t, ht⟩
    rcases boundary_or_within log (hlog.eq_bytes ▸ hm) with hboundary | ⟨k, hk, hlt, hlt'⟩
    · exact hboundary
    · cases ht.symm.trans (hwithin hk hlt hlt')
  · rintro ⟨k, -, rfl⟩
    exact ⟨_, hcut.eq_ok_iff.mpr ⟨_, hlog.take k, hsplit k, rfl⟩⟩
  · intro hnone
    rcases boundary_or_within log (hlog.eq_bytes ▸ hm) with hboundary | ⟨k, hk, hlt, hlt'⟩
    · exact absurd hboundary hnone
    · exact ⟨k, hk, hlt, hlt', hwithin hk hlt hlt'⟩

end Adoption

/-- A store made of bytes holds their frames, and no other store is made of them: it is made if and only if they are
frames that fit their buckets, and else they are turned down for their first fault. Only these bytes count, and where
they end. -/
theorem adoption_exact (h : Adoption data b buffer build) :
    (∀ s, build = .ok s ↔ ∃ log, Framed data log ∧ Table.Fits b log.sizes ∧
      s = ofParts buffer b (Table.partition b log.sizes) log.length data.length) ∧
    (∀ log log', Framed data log → Framed data log' → log = log') ∧
    (∀ s log, build = .ok s → Framed data log → s.frameCount = log.length ∧
      ∀ i (hi : i < log.length), ∃ frame, s.get i = .ok frame ∧ frame.elements = log[i]) ∧
    (∀ e, build = .error e ↔ ∃ r, FirstFault b data r ∧ e = .refused r) ∧
    (∀ other build', Adoption data b other build' → build' = build.map fun s => { s with buffer := some other }) ∧
    (∀ s log m other cut, build = .ok s → Framed data log → m ≤ data.length →
      Adoption (data.take m) b other cut →
        ((∃ t, cut = .ok t) ↔ ∃ k ≤ log.length, m = log.offset k) ∧
        ((¬ ∃ k ≤ log.length, m = log.offset k) →
          ∃ k < log.length, log.offset k < m ∧ m < log.offset (k + 1) ∧
            cut = refuse (.corruptFrame (log.offset k)))) := by
  refine ⟨fun s => h.eq_ok_iff, fun _ _ => Framed.unique, ?_, fun e => h.eq_error_iff, ?_,
    fun s log m other cut hbuild hlog hm hcut => h.truncated hbuild hlog hm hcut⟩
  · intro s log hbuild hlog
    obtain ⟨log', hlog', hfits, rfl⟩ := h.eq_ok_iff.mp hbuild
    obtain rfl := hlog.unique hlog'
    refine ⟨rfl, fun i hi => ⟨_, ?_, Cursor.elements_payloadView Buffer.region hi⟩⟩
    rw [(h.holds hlog hfits).get_eq, if_pos hi]
  · intro other build' h'
    rw [h.build_eq, h'.build_eq]
    cases scan b ⟨data, 0⟩ .fresh 0 with
    | error e => rfl
    | ok x => rfl

/-- Two frames in front of a spare byte, one in each bucket; cut off in the second. -/
theorem adoption_exact_two_frames :
    let buffer : Buffer := ⟨[2, 0, 0, 0, 7, 8, 1, 0, 0, 0, 9, 255], .fixed⟩
    (∃ s, adopt buffer 11 1 = .ok s ∧ s.frameCount = 2) ∧ adopt buffer 8 1 = refuse (.corruptFrame 6) := by
  intro buffer
  have whole : Adoption [2, 0, 0, 0, 7, 8, 1, 0, 0, 0, 9] 1 buffer (adopt buffer 11 1) :=
    .inPlace rfl (by decide) (by decide) (by decide)
  have cut : Adoption [2, 0, 0, 0, 7, 8, 1, 0] 1 buffer (adopt buffer 8 1) :=
    .inPlace rfl (by decide) (by decide) (by decide)
  have framed : Framed [2, 0, 0, 0, 7, 8, 1, 0, 0, 0, 9] [[7, 8], [9]] := framed_iff.mpr (by decide)
  have fits : Table.Fits 1 (Log.sizes [[7, 8], [9]]) := Table.fits_of_sum_le (by decide)
  have hbuild := ((adoption_exact whole).1 _).mpr ⟨_, framed, fits, rfl⟩
  refine ⟨⟨_, hbuild, rfl⟩, ?_⟩
  obtain ⟨-, hwithin⟩ := (adoption_exact whole).2.2.2.2.2 _ _ 8 _ _ hbuild framed (by decide) cut
  obtain ⟨k, hk, hlt, hlt', hcut⟩ := hwithin (by decide)
  have hlast : ∀ k < 2, 8 < Log.offset [[7, 8], [9]] (k + 1) → k = 1 := by decide
  obtain rfl := hlast k hk hlt'
  exact hcut

end Store
end FrameLog
