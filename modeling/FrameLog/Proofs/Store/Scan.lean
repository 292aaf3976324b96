import FrameLog.Proofs.Store.Read

/-!
# The scan over adopted bytes

The scan enters a frame as appending does, so that behind the frames of a log it has that log's
partition. What it comes to is told from the bytes alone: they are frames that fit their buckets, or there is a first
fault.
-/

namespace FrameLog

open Log

namespace Store

variable {b : Nat} {c : Cursor} {t : Table} {n : Nat} {log : Log} {payload rest data : Bytes}

/-! ## One step of the scan -/

theorem scan_done (h : c.data.length ≤ c.offset) : scan b c t n = .ok (t, n) := by
  rw [scan, if_neg (Nat.not_lt.mpr h)]

theorem scan_error {e : Failure} (hlt : c.offset < c.data.length) (h : c.skip = .error e) :
    scan b c t n = .error e := by
  rw [scan, if_pos hlt]
  split
  · next e' he =>
      rw [h] at he
      cases he
      rfl
  · next d he =>
      rw [h] at he
      cases he

theorem scan_step {d : Cursor} (hlt : c.offset < c.data.length) (h : c.skip = .ok d) :
    scan b c t n = (do
      let t ← enter b n (← Word.sub d.offset c.offset) t
      let n ← Word.add n 1
      scan b d t n) := by
  rw [scan, if_pos hlt]
  split
  · next e' he =>
      rw [h] at he
      cases he
  · next d' he =>
      rw [h] at he
      cases he
      rfl

theorem startsBucket_eq (hb : 0 < b) (n : Nat) : startsBucket b n = .ok (Table.opens b n) := by
  by_cases hn : n = 0
  · rw [startsBucket, if_pos hn, Table.opens]
    simp [hn]
  · have hmod : Word.mod n b = .ok (n % b) := Word.mod_eq_ok.mpr ⟨Nat.ne_of_gt hb, rfl⟩
    rw [startsBucket, if_neg hn, hmod, Table.opens]
    simp [hn, Except.map]
    rfl

/-- The scan enters a frame as appending does. -/
theorem enter_eq (hb : 0 < b) {sizes : List Nat} {x : Nat} (hsum : sizes.sum ≤ Word.limit)
    (hx : Table.openLength b sizes + x ≤ Word.limit) :
    enter b sizes.length x (Table.partition b sizes) =
      if Table.openLength b sizes + x ≤ Bucket.maxLength then .ok (Table.partition b (sizes ++ [x]))
      else refuse (.frameTooLarge x) := by
  have henter := Table.enter_partition (x := x) hb hsum
  have hlimit : (Table.group b sizes (sizes.length / b)).totalLength + x ≤ Word.limit := by rwa [Table.group_div hb]
  have hlength := Bucket.lengthAfter_eq _ hlimit
  rw [Table.openNextIf_partition hb hsum, ok_bind] at henter
  rw [Table.group_div hb] at hlength
  rw [enter, startsBucket_eq hb, ok_bind, Table.openNextIf_partition hb hsum, ok_bind,
    Table.last_eq_ok.mpr List.getLast?_concat, ok_bind, hlength]
  split
  · rw [ok_bind, henter]
  · rfl

/-! ## Along the frames -/

section
variable (hb : 0 < b) (hfits : Table.Fits b log.sizes)
include hb hfits

/-- Behind the frames of a log, the scan finds one more frame and enters it, or turns it down. -/
theorem scan_frame (hpayload : payload.length < 0x80000000)
    (hlength : (log.bytes ++ (frame payload ++ rest)).length ≤ maxAllocation) :
    scan b ⟨log.bytes ++ (frame payload ++ rest), log.bytes.length⟩ (Table.partition b log.sizes) log.length =
      if Table.openLength b log.sizes + (Prefix.size + payload.length) ≤ Bucket.maxLength then
        scan b ⟨log.bytes ++ (frame payload ++ rest), (Log.bytes (log ++ [payload])).length⟩
          (Table.partition b (Log.sizes (log ++ [payload]))) (log.length + 1)
      else refuse (.frameTooLarge (Prefix.size + payload.length)) := by
  have hcount := length_bytes log
  have hopen := openLength_le hb hfits
  simp only [List.length_append, length_frame, maxAllocation, Prefix.size] at hlength hcount
  have hsum : log.sizes.sum ≤ Word.limit := by
    rw [sum_sizes, Word.limit]
    omega
  have hx : Table.openLength b log.sizes + (Prefix.size + payload.length) ≤ Word.limit := by
    simp only [Bucket.maxLength, Word.limit, Prefix.size] at hopen ⊢
    omega
  have hlt : log.bytes.length < (log.bytes ++ (frame payload ++ rest)).length := by
    simp only [List.length_append, length_frame, Prefix.size]
    omega
  have hfront : log.bytes.length ≤ maxAllocation := by
    rw [maxAllocation]
    omega
  have hskip := Cursor.skip_frame hfront hpayload rest
  have hsub : Word.sub (log.bytes ++ frame payload).length log.bytes.length = .ok (Prefix.size + payload.length) := by
    refine Word.sub_eq_ok.mpr ⟨?_, ?_⟩ <;> simp
  have hadd : Word.add log.length 1 = .ok (log.length + 1) :=
    Word.add_eq_ok.mpr ⟨by rw [Word.limit]; omega, rfl⟩
  have henter := enter_eq hb hsum hx
  rw [length_sizes] at henter
  rw [scan_step hlt hskip]
  simp only [hsub, ok_bind, henter]
  split
  · simp only [ok_bind, hadd, sizes_append, sizes_singleton, bytes_append, bytes_cons, bytes_nil, List.append_nil]
  · rfl

end

theorem scan_broken (hlength : log.bytes.length ≤ maxAllocation) (h : Broken rest) :
    scan b ⟨log.bytes ++ rest, log.bytes.length⟩ t n = refuse (.corruptFrame log.bytes.length) := by
  refine scan_error ?_ (Cursor.skip_broken hlength h)
  have hpos := List.length_pos_iff.mpr h.ne_nil
  simp only [List.length_append]
  omega

/-- The scan gets behind the frames of a log, whatever follows. -/
theorem scan_behind (hb : 0 < b) (hfits : Table.Fits b log.sizes) (rest : Bytes)
    (hlength : (log.bytes ++ rest).length ≤ maxAllocation) :
    scan b ⟨log.bytes ++ rest, 0⟩ .fresh 0 =
      scan b ⟨log.bytes ++ rest, log.bytes.length⟩ (Table.partition b log.sizes) log.length := by
  induction log using List.reverseRecOn generalizing rest with
  | nil =>
      rw [sizes_nil, Table.partition_nil hb]
      rfl
  | append_singleton log payload ih =>
      rw [sizes_append, sizes_singleton] at hfits
      obtain ⟨hlog, hopen⟩ := (Table.fits_append hb).mp hfits
      have hpayload : payload.length < 0x80000000 := by
        simp only [Bucket.maxLength] at hopen
        omega
      have hdata : Log.bytes (log ++ [payload]) ++ rest = Log.bytes log ++ (frame payload ++ rest) := by simp
      rw [hdata] at hlength ⊢
      rw [ih hlog _ hlength, scan_frame hb hlog hpayload hlength, if_pos hopen, List.length_append]
      rfl

/-! ## What the bytes decide -/

/-- The first frame of the bytes that breaks a rule, all before it being frames that fit their buckets: it is none,
or its bucket gets too long with it. -/
inductive FirstFault (bucketSize : Nat) : Bytes → Refusal → Prop
  | broken {front rest : Bytes} {log : Log} (before : Framed front log) (fits : Table.Fits bucketSize log.sizes)
      (fault : Broken rest) : FirstFault bucketSize (front ++ rest) (.corruptFrame front.length)
  | tooLarge {front whole payload rest : Bytes} {log : Log} (before : Framed front log)
      (fits : Table.Fits bucketSize log.sizes) (frame : Framed whole [payload])
      (fault : ¬ Table.Fits bucketSize (log ++ [payload]).sizes) :
      FirstFault bucketSize (front ++ (whole ++ rest)) (.frameTooLarge (Prefix.size + payload.length))

/-- Bytes are frames that fit their buckets, or they have a first fault. -/
theorem framed_or_firstFault (b : Nat) (data : Bytes) :
    (∃ log, Framed data log ∧ Table.Fits b log.sizes) ∨ ∃ r, FirstFault b data r := by
  suffices hall : ∀ (n : Nat) (front rest : Bytes) (log : Log), rest.length = n → Framed front log →
      Table.Fits b log.sizes → (∃ log, Framed (front ++ rest) log ∧ Table.Fits b log.sizes) ∨
        ∃ r, FirstFault b (front ++ rest) r from
    hall _ [] data [] rfl .nil (Table.fits_nil b)
  intro n
  -- The induction is on what is left of the bytes; the frames before it fit their buckets.
  induction n using Nat.strongRecOn with
  | ind n ih =>
      intro front rest log hn hfront hfits
      by_cases hrest : rest = []
      · subst hrest
        exact .inl ⟨log, by rwa [List.append_nil], hfits⟩
      rcases broken_or_frame hrest with hbroken | ⟨payload, tail, rfl, hpayload⟩
      · exact .inr ⟨_, .broken hfront hfits hbroken⟩
      have hwhole := framed_singleton hpayload
      by_cases hnext : Table.Fits b (Log.sizes (log ++ [payload]))
      · have hlt : tail.length < n := by
          rw [← hn, List.length_append, length_frame, Prefix.size]
          omega
        have htail := ih tail.length hlt (front ++ frame payload) tail (log ++ [payload]) rfl
          (hfront.append hwhole) hnext
        rwa [List.append_assoc] at htail
      · exact .inr ⟨_, .tooLarge hfront hfits hwhole hnext⟩

theorem scan_framed (hb : 0 < b) (h : Framed data log) (hfits : Table.Fits b log.sizes)
    (hlength : data.length ≤ maxAllocation) :
    scan b ⟨data, 0⟩ .fresh 0 = .ok (Table.partition b log.sizes, log.length) := by
  have hscan := scan_behind hb hfits [] (by rwa [List.append_nil, ← h.eq_bytes])
  rw [List.append_nil] at hscan
  rw [h.eq_bytes, hscan]
  exact scan_done (Nat.le_refl _)

theorem scan_firstFault (hb : 0 < b) {r : Refusal} (h : FirstFault b data r) (hlength : data.length ≤ maxAllocation) :
    scan b ⟨data, 0⟩ .fresh 0 = refuse r := by
  cases h with
  | @broken front rest log before fits fault =>
      have hfront := before.eq_bytes
      subst hfront
      rw [scan_behind hb fits rest hlength]
      exact scan_broken (Nat.le_trans (by simp) hlength) fault
  | @tooLarge front whole payload rest log before fits whole' fault =>
      have hfront := before.eq_bytes
      obtain ⟨hwhole, hpayload⟩ := framed_iff.mp whole'
      subst hfront hwhole
      have hopen : ¬ Table.openLength b log.sizes + (Prefix.size + payload.length) ≤ Bucket.maxLength := by
        intro hle
        rw [sizes_append, sizes_singleton] at fault
        exact fault ((Table.fits_append hb).mpr ⟨fits, hle⟩)
      rw [bytes_cons, bytes_nil, List.append_nil] at hlength ⊢
      rw [scan_behind hb fits _ hlength, scan_frame hb fits (hpayload _ (by simp)) hlength, if_neg hopen]

/-- The scan of some bytes: their partition if they are frames that fit their buckets, else their first fault. -/
theorem scan_eq_ok_iff (hb : 0 < b) (hlength : data.length ≤ maxAllocation) {x : Table × Nat} :
    scan b ⟨data, 0⟩ .fresh 0 = .ok x ↔
      ∃ log, Framed data log ∧ Table.Fits b log.sizes ∧ x = (Table.partition b log.sizes, log.length) := by
  constructor
  · intro h
    rcases framed_or_firstFault b data with ⟨log, hlog, hfits⟩ | ⟨r, hr⟩
    · rw [scan_framed hb hlog hfits hlength] at h
      cases h
      exact ⟨log, hlog, hfits, rfl⟩
    · rw [scan_firstFault hb hr hlength] at h
      cases h
  · rintro ⟨log, hlog, hfits, rfl⟩
    exact scan_framed hb hlog hfits hlength

theorem scan_eq_error_iff (hb : 0 < b) (hlength : data.length ≤ maxAllocation) {e : Failure} :
    scan b ⟨data, 0⟩ .fresh 0 = .error e ↔ ∃ r, FirstFault b data r ∧ e = .refused r := by
  constructor
  · intro h
    rcases framed_or_firstFault b data with ⟨log, hlog, hfits⟩ | ⟨r, hr⟩
    · rw [scan_framed hb hlog hfits hlength] at h
      cases h
    · rw [scan_firstFault hb hr hlength] at h
      cases h
      exact ⟨r, hr, rfl⟩
  · rintro ⟨r, hr, rfl⟩
    exact scan_firstFault hb hr hlength

end Store
end FrameLog
