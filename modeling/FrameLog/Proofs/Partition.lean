import Mathlib
import FrameLog.Bucket

/-!
# The partition of frames into buckets

Frames of given sizes, cut into groups of equal number: where each group begins and how long it is. What one more
frame changes is said once here (`partition_append`, `fits_append`).
-/

namespace FrameLog.Table

/-- The buckets that so many frames take, one at least. -/
def bucketsFor (bucketSize count : Nat) : Nat := max 1 ((count + bucketSize - 1) / bucketSize)

def group (bucketSize : Nat) (sizes : List Nat) (k : Nat) : Bucket :=
  ⟨(sizes.take (k * bucketSize)).sum, ((sizes.drop (k * bucketSize)).take bucketSize).sum⟩

def partition (bucketSize : Nat) (sizes : List Nat) : Table :=
  (List.range (bucketsFor bucketSize sizes.length)).map (group bucketSize sizes)

/-- The bytes already in the group that the next frame joins. -/
def openLength (bucketSize : Nat) (sizes : List Nat) : Nat :=
  (sizes.drop (sizes.length / bucketSize * bucketSize)).sum

/-- After so many frames, the next one is the first of a new bucket. -/
def opens (bucketSize count : Nat) : Bool := count ≠ 0 ∧ count % bucketSize = 0

def Fits (bucketSize : Nat) (sizes : List Nat) : Prop :=
  ∀ k, (group bucketSize sizes k).totalLength ≤ Bucket.maxLength

variable {b : Nat} {sizes : List Nat} {x : Nat}

/-! ## How many buckets there are -/

theorem bucketsFor_zero (hb : 0 < b) : bucketsFor b 0 = 1 := by
  have h : (0 + b - 1) / b = 0 := Nat.div_eq_of_lt (by omega)
  rw [bucketsFor, h]
  rfl

theorem bucketsFor_succ (hb : 0 < b) (n : Nat) : bucketsFor b (n + 1) = n / b + 1 := by
  have h : (n + 1 + b - 1) / b = n / b + 1 := by
    rw [show n + 1 + b - 1 = n + b by omega, Nat.add_div_right n hb]
  rw [bucketsFor, h]
  exact Nat.max_eq_right (Nat.le_add_left ..)

theorem bucketsFor_le (hb : 0 < b) (n : Nat) : bucketsFor b n ≤ n + 1 := by
  cases n with
  | zero => exact Nat.le_of_eq (bucketsFor_zero hb)
  | succ n =>
      rw [bucketsFor_succ hb]
      exact Nat.succ_le_succ (Nat.le_trans (Nat.div_le_self n b) (Nat.le_succ n))

/-- Where the last group is full its bucket is the last, else the bucket of the next frame is. -/
theorem bucketsFor_eq (hb : 0 < b) (n : Nat) : bucketsFor b n = if opens b n then n / b else n / b + 1 := by
  cases n with
  | zero => simp [bucketsFor_zero hb, opens]
  | succ n =>
      rw [bucketsFor_succ hb, Nat.succ_div]
      by_cases h : b ∣ n + 1
      · simp [opens, h, Nat.mod_eq_zero_of_dvd h]
      · simp [opens, h, Nat.dvd_iff_mod_eq_zero.not.mp h]

theorem length_partition : (partition b sizes).length = bucketsFor b sizes.length := by
  simp [partition]

theorem bucketsFor_pos (b n : Nat) : 0 < bucketsFor b n := Nat.lt_of_lt_of_le Nat.one_pos (Nat.le_max_left ..)

theorem div_beq_length (hb : 0 < b) (sizes : List Nat) :
    (sizes.length / b == (partition b sizes).length) = opens b sizes.length := by
  rw [length_partition, bucketsFor_eq hb]
  cases opens b sizes.length <;> simp

theorem div_lt_bucketsFor {i n : Nat} (hb : 0 < b) (h : i < n) : i / b < bucketsFor b n := by
  obtain ⟨m, rfl⟩ : ∃ m, n = m + 1 := ⟨n - 1, by omega⟩
  rw [bucketsFor_succ hb]
  exact Nat.lt_succ_of_le (Nat.div_le_div_right (Nat.le_of_lt_succ h))

theorem partition_nil (hb : 0 < b) : partition b [] = fresh := by
  simp [partition, bucketsFor_zero hb, group, fresh, Bucket.first]

/-! ## What one more frame changes -/

theorem openLength_of_opens (h : opens b sizes.length = true) : openLength b sizes = 0 := by
  have hmod : sizes.length % b = 0 := by simp_all [opens]
  rw [openLength, Nat.div_mul_cancel (Nat.dvd_of_mod_eq_zero hmod), List.drop_length]
  rfl

theorem group_div (hb : 0 < b) (sizes : List Nat) :
    (group b sizes (sizes.length / b)).totalLength = openLength b sizes := by
  have h := Nat.div_add_mod' sizes.length b
  have hmod := Nat.mod_lt sizes.length hb
  simp only [group, openLength]
  rw [List.take_of_length_le]
  rw [List.length_drop]
  omega

theorem group_append_of_lt {k : Nat} (h : k < sizes.length / b) :
    group b (sizes ++ [x]) k = group b sizes k := by
  have hk : (k + 1) * b ≤ sizes.length := Nat.le_trans (Nat.mul_le_mul_right b h) (Nat.div_mul_le_self ..)
  rw [Nat.add_mul, Nat.one_mul] at hk
  simp only [group]
  rw [List.take_append_of_le_length (by omega), List.drop_append_of_le_length (by omega),
    List.take_append_of_le_length (by rw [List.length_drop]; omega)]

theorem group_append_div (hb : 0 < b) : group b (sizes ++ [x]) (sizes.length / b) =
    ⟨(group b sizes (sizes.length / b)).offset, openLength b sizes + x⟩ := by
  have h := Nat.div_add_mod' sizes.length b
  have hmod := Nat.mod_lt sizes.length hb
  simp only [group, openLength]
  have hlength : (sizes.drop (sizes.length / b * b) ++ [x]).length ≤ b := by
    rw [List.length_append, List.length_drop, List.length_singleton]
    omega
  rw [List.take_append_of_le_length (by omega), List.drop_append_of_le_length (by omega),
    List.take_of_length_le hlength, List.sum_append, List.sum_singleton]

theorem group_of_ge {k : Nat} (h : sizes.length ≤ k * b) : (group b sizes k).totalLength = 0 := by
  simp only [group]
  rw [List.drop_of_length_le h, List.take_nil, List.sum_nil]

/-- Only the bucket of the new frame changes, and behind it there is none. -/
theorem partition_append (hb : 0 < b) : partition b (sizes ++ [x]) =
    (List.range (sizes.length / b)).map (group b sizes) ++
      [⟨(group b sizes (sizes.length / b)).offset, openLength b sizes + x⟩] := by
  rw [partition, List.length_append, List.length_singleton, bucketsFor_succ hb, List.range_succ, List.map_append,
    List.map_singleton, group_append_div hb]
  congr 1
  exact List.map_congr_left fun k hk => group_append_of_lt (List.mem_range.mp hk)

theorem last_partition_append (hb : 0 < b) : (partition b (sizes ++ [x])).last =
    .ok ⟨(group b sizes (sizes.length / b)).offset, openLength b sizes + x⟩ := by
  rw [partition_append hb]
  exact last_eq_ok.mpr List.getLast?_concat

theorem fits_append (hb : 0 < b) :
    Fits b (sizes ++ [x]) ↔ Fits b sizes ∧ openLength b sizes + x ≤ Bucket.maxLength := by
  constructor
  · intro h
    have hlast := h (sizes.length / b)
    rw [group_append_div hb] at hlast
    refine ⟨fun k => ?_, hlast⟩
    rcases Nat.lt_trichotomy k (sizes.length / b) with hk | rfl | hk
    · have hk' := h k
      rwa [group_append_of_lt hk] at hk'
    · rw [group_div hb sizes]
      exact Nat.le_trans (Nat.le_add_right ..) hlast
    · rw [group_of_ge (Nat.le_of_lt ((Nat.div_lt_iff_lt_mul hb).mp hk))]
      exact Nat.zero_le _
  · rintro ⟨h, hlast⟩ k
    rcases Nat.lt_trichotomy k (sizes.length / b) with hk | rfl | hk
    · rw [group_append_of_lt hk]
      exact h k
    · rw [group_append_div hb]
      exact hlast
    · have hk' := (Nat.div_lt_iff_lt_mul hb).mp hk
      rw [group_of_ge (by rw [List.length_append, List.length_singleton]; omega)]
      exact Nat.zero_le _

theorem fits_nil (b : Nat) : Fits b [] := fun k => by simp [group]

theorem fits_of_sum_le (h : sizes.sum ≤ Bucket.maxLength) : Fits b sizes := by
  intro k
  have hsub := (List.take_sublist b (sizes.drop (k * b))).trans (List.drop_sublist (k * b) sizes)
  exact Nat.le_trans (hsub.sum_le_sum fun _ _ => Nat.zero_le _) h

theorem Fits.of_append (hb : 0 < b) {more : List Nat} (h : Fits b (sizes ++ more)) : Fits b sizes := by
  induction more using List.reverseRecOn with
  | nil => rwa [List.append_nil] at h
  | append_singleton more x ih =>
      rw [← List.append_assoc] at h
      exact ih ((fits_append hb).mp h).1

theorem Fits.le_of_mem (hb : 0 < b) (h : Fits b sizes) (hx : x ∈ sizes) : x ≤ Bucket.maxLength := by
  obtain ⟨before, after, rfl⟩ := List.append_of_mem hx
  rw [← List.singleton_append, ← List.append_assoc] at h
  exact Nat.le_trans (Nat.le_add_left ..) ((fits_append hb).mp (h.of_append hb)).2

/-! ## How the buckets lie -/

theorem offset_succ (k : Nat) :
    (group b sizes (k + 1)).offset = (group b sizes k).offset + (group b sizes k).totalLength := by
  simp only [group]
  rw [Nat.add_mul, Nat.one_mul, List.take_add, List.sum_append]

theorem offset_le_sum (b : Nat) (sizes : List Nat) (k : Nat) : (group b sizes k).offset ≤ sizes.sum :=
  (List.take_sublist (k * b) sizes).sum_le_sum fun _ _ => Nat.zero_le _

theorem endOffset_group (hsum : sizes.sum ≤ Word.limit) (k : Nat) :
    (group b sizes k).endOffset = .ok (group b sizes (k + 1)).offset := by
  have hle := Nat.le_trans (offset_le_sum b sizes (k + 1)) hsum
  rw [offset_succ] at hle ⊢
  exact Word.add_eq_ok.mpr ⟨hle, rfl⟩

theorem offset_bucketsFor (hb : 0 < b) (sizes : List Nat) :
    (group b sizes (bucketsFor b sizes.length)).offset = sizes.sum := by
  have h := Nat.div_add_mod' sizes.length b
  have hmod := Nat.mod_lt sizes.length hb
  simp only [group]
  rw [List.take_of_length_le]
  rw [bucketsFor_eq hb]
  split
  · next ho =>
      have : sizes.length % b = 0 := by simp_all [opens]
      omega
  · rw [Nat.add_mul, Nat.one_mul]
    omega

theorem getElem_partition {k : Nat} (h : k < (partition b sizes).length) :
    (partition b sizes)[k] = group b sizes k := by
  simp [partition]

theorem getLast?_partition (hb : 0 < b) (sizes : List Nat) : ∃ last, (partition b sizes).getLast? = some last ∧
    last = group b sizes (bucketsFor b sizes.length - 1) ∧ last.offset + last.totalLength = sizes.sum := by
  have hpos := bucketsFor_pos b sizes.length
  refine ⟨_, ?_, rfl, ?_⟩
  · rw [List.getLast?_eq_getElem?, length_partition, List.getElem?_eq_getElem, getElem_partition]
    rw [length_partition]
    omega
  · rw [← offset_succ, Nat.sub_add_cancel hpos, offset_bucketsFor hb sizes]

theorem group_pos (hb : 0 < b) (hpos : ∀ x ∈ sizes, 0 < x) (hsome : sizes ≠ []) {k : Nat}
    (hk : k < bucketsFor b sizes.length) : 0 < (group b sizes k).totalLength := by
  have hlength := List.length_pos_iff.mpr hsome
  obtain ⟨n, hn⟩ : ∃ n, sizes.length = n + 1 := ⟨sizes.length - 1, by omega⟩
  rw [hn, bucketsFor_succ hb] at hk
  have hstart := (Nat.mul_le_mul_right b (Nat.le_of_lt_succ hk)).trans (Nat.div_mul_le_self n b)
  apply List.sum_pos
  · intro x hx
    exact hpos x (List.mem_of_mem_drop (List.mem_of_mem_take hx))
  · apply List.ne_nil_of_length_pos
    rw [List.length_take, List.length_drop]
    omega

/-- The buckets cut the frames into groups of `bucketSize`, lie one behind the other from the beginning to the end,
and are empty only where there is no frame at all. -/
structure Tiles (t : Table) (bucketSize : Nat) (sizes : List Nat) : Prop where
  count : t.length = max 1 ((sizes.length + bucketSize - 1) / bucketSize)
  offset : ∀ k (h : k < t.length), t[k].offset = (sizes.take (k * bucketSize)).sum
  totalLength : ∀ k (h : k < t.length), t[k].totalLength = ((sizes.drop (k * bucketSize)).take bucketSize).sum
  bounded : ∀ k (h : k < t.length), t[k].totalLength ≤ 0x7FFFFFFF
  filled : ∀ k (h : k < t.length), sizes ≠ [] → 0 < t[k].totalLength
  first : ∀ h : 0 < t.length, t[0].offset = 0
  adjacent : ∀ k (h : k + 1 < t.length), t[k].endOffset = .ok t[k + 1].offset
  last : ∃ bucket, t.last = .ok bucket ∧ bucket.endOffset = .ok sizes.sum

theorem partition_tiles (hb : 0 < b) (hfits : Fits b sizes) (hsum : sizes.sum ≤ Word.limit)
    (hpos : ∀ x ∈ sizes, 0 < x) : (partition b sizes).Tiles b sizes := by
  have hend := endOffset_group (b := b) hsum
  obtain ⟨last, hlast, hgroup, -⟩ := getLast?_partition hb sizes
  exact {
    count := length_partition
    offset := fun k h => by rw [getElem_partition h, group]
    totalLength := fun k h => by rw [getElem_partition h, group]
    bounded := fun k h => by rw [getElem_partition h]; exact hfits k
    filled := fun k h hsome => by
      rw [getElem_partition h]
      exact group_pos hb hpos hsome (by rwa [length_partition] at h)
    first := fun h => by rw [getElem_partition h, group, Nat.zero_mul]; rfl
    adjacent := fun k h => by rw [getElem_partition h, getElem_partition (Nat.lt_of_succ_lt h), hend]
    last := by
      refine ⟨last, last_eq_ok.mpr hlast, ?_⟩
      rw [hgroup, hend, Nat.sub_add_cancel (bucketsFor_pos b _), offset_bucketsFor hb] }

/-- There is one way only to tile the frames. -/
theorem Tiles.eq_partition {t : Table} (h : t.Tiles b sizes) : t = partition b sizes := by
  have hlength : t.length = (partition b sizes).length := h.count.trans length_partition.symm
  refine List.ext_getElem hlength fun k hk hk' => ?_
  rw [getElem_partition hk', group, ← h.offset k hk, ← h.totalLength k hk]

/-! ## The table's operations -/

/-- The last bucket, or the one to be opened behind it, is as long as the group that the next frame joins. -/
theorem totalLength_open (hb : 0 < b) (sizes : List Nat) :
    (if opens b sizes.length then Bucket.first else group b sizes (bucketsFor b sizes.length - 1)).totalLength =
      openLength b sizes := by
  rw [bucketsFor_eq hb]
  split
  · next ho => exact (openLength_of_opens ho).symm
  · exact group_div hb sizes

/-- With the bucket of the next frame open, the table has one entry for each group up to that frame's. -/
theorem openNextIf_partition (hb : 0 < b) (hsum : sizes.sum ≤ Word.limit) :
    (partition b sizes).openNextIf (opens b sizes.length) =
      .ok ((List.range (sizes.length / b)).map (group b sizes) ++ [group b sizes (sizes.length / b)]) := by
  have hcount := bucketsFor_eq hb sizes.length
  cases ho : opens b sizes.length with
  | false =>
      simp only [ho, Bool.false_eq_true, ↓reduceIte] at hcount
      rw [partition, hcount, List.range_succ, List.map_append, List.map_singleton]
      rfl
  | true =>
      simp only [ho, ↓reduceIte] at hcount
      obtain ⟨last, hlast, -, hend⟩ := getLast?_partition hb sizes
      have hnew : group b sizes (sizes.length / b) = ⟨last.offset + last.totalLength, 0⟩ := by
        have hlength := group_div hb sizes
        have hoffset := offset_bucketsFor hb sizes
        rw [openLength_of_opens ho] at hlength
        rw [hcount] at hoffset
        rw [hend, ← hoffset, ← hlength]
      have hadd : last.endOffset = .ok (last.offset + last.totalLength) :=
        Word.add_eq_ok.mpr ⟨by omega, rfl⟩
      rw [hnew]
      rw [openNextIf, if_pos rfl, openNext, last_eq_ok.mpr hlast, ok_bind, hadd, ok_bind, partition, hcount]
      rfl

theorem enter_partition (hb : 0 < b) (hsum : sizes.sum ≤ Word.limit) :
    ((partition b sizes).openNextIf (opens b sizes.length) >>= fun t => t.setLastLength (openLength b sizes + x)) =
      .ok (partition b (sizes ++ [x])) := by
  have hle : (group b sizes (sizes.length / b)).totalLength ≤ openLength b sizes + x := by
    rw [group_div hb sizes]
    exact Nat.le_add_right ..
  rw [openNextIf_partition hb hsum, partition_append hb, ok_bind]
  simp [setLastLength, last, Bucket.withLength, check_pos hle]

end FrameLog.Table
