import FrameLog.Store.Read
import FrameLog.Proofs.Store.Invariant

/-!
# What a store in use answers

Reading finds frame `i` of the log where the table says, whatever the bucket size; what is not in the log is out of
range. No header is ever found corrupt.
-/

namespace FrameLog.Store

open Log Cursor

variable {s : Store} {buffer : Buffer} {log : Log}

namespace Holds

variable (h : Holds s buffer log)
include h

/-! ## All bytes -/

theorem written_eq : s.written = .ok log.bytes := by
  have hle : s.dataEnd ≤ buffer.capacity := h.dataEnd ▸ h.length_le
  simp only [written, h.live, check_pos hle, ok_bind, pure_eq_ok, h.take_eq]

theorem bytes_eq : s.bytes = .ok (View.whole Buffer.region log.bytes) := by
  rw [Store.bytes, h.written_eq]
  rfl

/-! ## One frame -/

theorem getElem?_buckets {i : Nat} (hi : i < log.length) :
    s.buckets[i / s.bucketSize]? = some (Table.group s.bucketSize log.sizes (i / s.bucketSize)) := by
  have hlt : i / s.bucketSize < (Table.partition s.bucketSize log.sizes).length := by
    rw [Table.length_partition, length_sizes]
    exact Table.div_lt_bucketsFor h.bucketSize hi
  rw [h.buckets, List.getElem?_eq_getElem hlt, Table.getElem_partition]

theorem seek_eq (i : Nat) :
    s.seek i = if i < log.length then .ok (onFrame log i) else refuse (.outOfRange i log.length) := by
  by_cases hi : i < log.length
  · have hb := Nat.ne_of_gt h.bucketSize
    have hdiv : Word.div i s.bucketSize = .ok (i / s.bucketSize) := Word.div_eq_ok.mpr ⟨hb, rfl⟩
    have hmod : Word.mod i s.bucketSize = .ok (i % s.bucketSize) := Word.mod_eq_ok.mpr ⟨hb, rfl⟩
    have hi' : i < s.frameCount := h.count ▸ hi
    have hsplit := Nat.div_add_mod' i s.bucketSize
    have hskip := skipMany_onFrame h.readable (i % s.bucketSize) (i := i / s.bucketSize * s.bucketSize)
      (by omega)
    rw [hsplit, onFrame, offset_eq_sum] at hskip
    rw [seek, h.written_eq, ok_bind, require_pos hi', ok_bind, hdiv, ok_bind, h.getElem?_buckets hi, if_pos hi]
    simp only [hmod, ok_bind]
    exact hskip
  · have hi' : ¬ i < s.frameCount := h.count ▸ hi
    rw [seek, h.written_eq, ok_bind, require_neg hi', if_neg hi, h.count]
    rfl

theorem get_eq (i : Nat) :
    s.get i = if i < log.length then .ok (payloadView Buffer.region log i) else refuse (.outOfRange i log.length) := by
  rw [Store.get, h.seek_eq]
  split
  · next hi => rw [ok_bind, peek_onFrame h.readable hi]
  · rfl

theorem getWithPrefix_eq (i : Nat) :
    s.getWithPrefix i = if i < log.length then
        .ok ⟨Buffer.region, log.bytes, log.offset i, log.offset (i + 1) - log.offset i⟩
      else refuse (.outOfRange i log.length) := by
  rw [getWithPrefix, h.seek_eq]
  split
  · next hi => rw [ok_bind, peekWhole_onFrame h.readable hi, offset_succ hi, Nat.add_sub_cancel_left]
  · rfl

/-! ## Several frames -/

theorem checkRange_eq (start stop : Nat) :
    s.checkRange start stop = if log.length < stop then refuse (.outOfRange stop log.length)
      else if stop < start then refuse (.outOfRange start stop) else .ok () := by
  have hlive : (!s.isDisposed) = true := by rw [h.isDisposed_eq]; rfl
  rw [checkRange, require_pos hlive, ok_bind, h.count]
  by_cases hstop : log.length < stop
  · rw [if_pos hstop, require_neg (Nat.not_le.mpr hstop)]
    rfl
  · rw [if_neg hstop, require_pos (Nat.not_lt.mp hstop), ok_bind]
    by_cases hstart : stop < start
    · rw [if_pos hstart, require_neg (Nat.not_le.mpr hstart)]
    · rw [if_neg hstart, require_pos (Nat.not_lt.mp hstart)]

theorem getRange_eq (start count : Nat) :
    s.getRange start count = if count = 0 then refuse (.badArgument .emptyRange)
      else if Word.limit < start + count then refuse (.outOfRange Word.limit log.length)
      else if log.length < start + count then refuse (.outOfRange (start + count) log.length)
      else .ok ⟨Buffer.region, log.bytes, log.offset start, log.offset (start + count) - log.offset start⟩ := by
  by_cases hcount : count = 0
  · rw [getRange, require_neg (not_not_intro hcount), if_pos hcount]
    rfl
  rw [getRange, require_pos hcount, ok_bind, if_neg hcount]
  by_cases hlimit : Word.limit < start + count
  · rw [require_neg (Nat.not_le.mpr hlimit), if_pos hlimit, h.count]
    rfl
  rw [require_pos (Nat.not_lt.mp hlimit), ok_bind, if_neg hlimit, h.checkRange_eq]
  by_cases hstop : log.length < start + count
  · rw [if_pos hstop, if_pos hstop]
    rfl
  have hlast : start + count - 1 + 1 = start + count := by omega
  have hskip := skip_onFrame h.readable (i := start + count - 1) (by omega)
  have hmono := log.offset_mono (Nat.le_add_right start count)
  have hsub : Word.sub (start + count) 1 = .ok (start + count - 1) := Word.sub_eq_ok.mpr ⟨by omega, rfl⟩
  have hsub' : Word.sub (log.offset (start + count)) (log.offset start) =
      .ok (log.offset (start + count) - log.offset start) := Word.sub_eq_ok.mpr ⟨hmono, rfl⟩
  have hfit : log.offset start + (log.offset (start + count) - log.offset start) ≤ log.bytes.length := by
    have := log.offset_le (start + count)
    omega
  rw [if_neg hstop, if_neg (by omega), if_neg hstop, ok_bind, h.seek_eq, if_pos (by omega), ok_bind, hsub, ok_bind,
    h.seek_eq, if_pos (by omega), ok_bind, hskip, ok_bind, hlast]
  simp only [onFrame, hsub', ok_bind]
  exact View.ofRange_of_le hfit

/-! ## Frame after frame -/

/-- A range is as many frames as it spans; the cursor stands on the first, if there is one. -/
theorem range_eq (start stop : Nat) :
    s.range start stop = if log.length < stop then refuse (.outOfRange stop log.length)
      else if stop < start then refuse (.outOfRange start stop)
      else .ok ⟨if start = stop then onFrame log log.length else onFrame log start, stop - start⟩ := by
  rw [range, h.checkRange_eq]
  by_cases hstop : log.length < stop
  · rw [if_pos hstop, if_pos hstop]
    rfl
  by_cases hstart : stop < start
  · rw [if_neg hstop, if_pos hstart, if_neg hstop, if_pos hstart]
    rfl
  have hsub : Word.sub stop start = .ok (stop - start) := Word.sub_eq_ok.mpr ⟨by omega, rfl⟩
  rw [if_neg hstop, if_neg hstart, if_neg hstop, if_neg hstart, ok_bind, rangeStart, hsub]
  by_cases heq : start = stop
  · rw [if_pos heq, if_pos heq, h.written_eq, h.dataEnd, onFrame, offset_length]
    rfl
  · rw [if_neg heq, if_neg heq, h.seek_eq, if_pos (by omega)]
    rfl

end Holds

variable {start count : Nat}

namespace Frames

/-- What is left to read are `count` frames of the log from `start` on. -/
structure Along (log : Log) (start count : Nat) (f : Frames) : Prop where
  readable : log.Readable
  remaining : f.remaining = count
  within : start + count ≤ log.length
  cursor : 0 < count → f.cursor = onFrame log start

variable {f : Frames}

theorem Along.next_done (h : Along log start 0 f) : f.next = (none, f) := by
  rw [next, h.remaining]

theorem Along.next_succ (h : Along log start (count + 1) f) :
    ∃ g, f.next = (some (.ok (payloadView Buffer.region log start)), g) ∧ Along log (start + 1) count g := by
  have hwithin := h.within
  have hnext := next_onFrame h.readable (i := start) (by omega) Buffer.region
  refine ⟨⟨onFrame log (start + 1), count⟩, ?_, ⟨h.readable, rfl, by omega, fun _ => rfl⟩⟩
  rw [next, h.remaining, h.cursor (Nat.succ_pos count), hnext]

end Frames

theorem Holds.range_along (h : Holds s buffer log) {stop : Nat} (hstart : start ≤ stop) (hstop : stop ≤ log.length) :
    ∃ f, s.range start stop = .ok f ∧ f.Along log start (stop - start) := by
  rw [h.range_eq, if_neg (Nat.not_lt.mpr hstop), if_neg (Nat.not_lt.mpr hstart)]
  refine ⟨_, rfl, h.readable, rfl, by omega, fun hpos => ?_⟩
  rw [if_neg (by omega)]

theorem Holds.range_cases (h : Holds s buffer log) (start stop : Nat) :
    (∃ f, s.range start stop = .ok f ∧ f.Along log start (stop - start)) ∨
      ∃ index length, s.range start stop = refuse (.outOfRange index length) := by
  by_cases hstop : log.length < stop
  · exact .inr ⟨stop, log.length, by rw [h.range_eq, if_pos hstop]⟩
  by_cases hstart : stop < start
  · exact .inr ⟨start, stop, by rw [h.range_eq, if_neg hstop, if_pos hstart]⟩
  · exact .inl (h.range_along (Nat.not_lt.mp hstart) (Nat.not_lt.mp hstop))

variable {σ : Type}

/-- The visitor sees the payloads in order, each with its number. -/
theorem visitFrom_onFrame (visit : Nat → View UInt8 → σ → σ) (hlog : log.Readable) (step : Nat) (x : σ)
    (h : start + count ≤ log.length) :
    visitFrom visit (onFrame log start) step count x =
      .ok ⟨⟩ ((((List.range' start count).map (payloadView Buffer.region log)).zipIdx step).foldl
        (fun x (frame, i) => visit i frame x) x) := by
  induction count generalizing start step x with
  | zero => rfl
  | succ count ih =>
      have hnext := next_onFrame hlog (i := start) (by omega) Buffer.region
      simp only [visitFrom, Action.bind_apply, hnext, Action.lift_ok_apply, Action.modify_apply]
      exact ih (step + 1) _ (by omega)

/-- A visit shows the payloads of its range in order, numbered from zero, or fails before the first. -/
theorem Holds.iterate_eq (h : Holds s buffer log) (stop : Nat) (visit : Nat → View UInt8 → σ → σ) (x : σ) :
    s.iterate start stop visit x = if log.length < stop then .error (.refused (.outOfRange stop log.length)) x
      else if stop < start then .error (.refused (.outOfRange start stop)) x
      else .ok ⟨⟩ ((((List.range' start (stop - start)).map (payloadView Buffer.region log)).zipIdx).foldl
        (fun x (frame, i) => visit i frame x) x) := by
  have hrange := h.range_eq start stop
  by_cases hstop : log.length < stop
  · rw [if_pos hstop] at hrange ⊢
    simp only [iterate, Action.bind_apply, hrange, Action.lift_refuse_apply]
  by_cases hstart : stop < start
  · rw [if_neg hstop, if_pos hstart] at hrange ⊢
    simp only [iterate, Action.bind_apply, hrange, Action.lift_refuse_apply]
  obtain ⟨f, hf, halong⟩ := h.range_along (Nat.not_lt.mp hstart) (Nat.not_lt.mp hstop)
  rw [if_neg hstop, if_neg hstart]
  simp only [iterate, Action.bind_apply, hf, Action.lift_ok_apply, halong.remaining]
  cases hcount : stop - start with
  | zero => rfl
  | succ count =>
      rw [halong.cursor (by omega)]
      exact visitFrom_onFrame visit h.readable 0 x (by omega)

theorem foldl_cons_zipIdx {α β : Type} (f : α → β) (xs : List α) (step : Nat) (read : List β) :
    (xs.zipIdx step).foldl (fun read (x, _) => f x :: read) read = (xs.map f).reverse ++ read := by
  induction xs generalizing step read with
  | nil => rfl
  | cons x rest ih => simp [ih]

/-- A visit that puts what it sees in front of a list has the payloads of its range there, the last one first. -/
theorem Holds.iterate_collect {β : Type} (h : Holds s buffer log) (f : Bytes → β)
    (hwithin : start + count ≤ log.length) :
    s.iterate start (start + count) (fun _ frame read => f frame.elements :: read) [] =
      .ok ⟨⟩ (((log.drop start).take count).map f).reverse := by
  have hpayloads := Cursor.elements_payloadViews Buffer.region hwithin
  rw [h.iterate_eq, if_neg (Nat.not_lt.mpr hwithin), if_neg (Nat.not_lt.mpr (Nat.le_add_right ..)),
    Nat.add_sub_cancel_left]
  refine congrArg (EStateM.Result.ok PUnit.unit)
    ((foldl_cons_zipIdx (fun frame : View UInt8 => f frame.elements) _ 0 []).trans ?_)
  rw [List.append_nil, ← hpayloads, List.map_map, List.map_map]
  rfl

end FrameLog.Store
