import Mathlib.Data.List.GetD
import FrameLog.Cursor
import FrameLog.Proofs.Log

/-!
# The cursor over the frames of a log

On the first byte of a frame the cursor reads that frame and nothing else, and moves to the first byte of the next.
-/

namespace FrameLog

open Log

/-- Offsets into the bytes fit a word, and every payload's length fits its prefix. -/
structure Log.Readable (log : Log) : Prop where
  short : ∀ payload ∈ log, payload.length < 0x80000000
  addressable : log.bytes.length ≤ maxAllocation

namespace Cursor

variable {front payload rest : Bytes} {a b c d : UInt8}

/-! ## Reading a prefix -/

/-- A word holds every offset that the cursor computes. -/
theorem add_offset {n : Nat} (hfront : front.length ≤ maxAllocation) (hn : n < 0x80000000) :
    Word.add front.length Prefix.size = .ok (front.length + Prefix.size) ∧
      Word.add (front.length + Prefix.size) n = .ok (front.length + Prefix.size + n) := by
  simp only [maxAllocation] at hfront
  refine ⟨Word.add_eq_ok.mpr ⟨?_, rfl⟩, Word.add_eq_ok.mpr ⟨?_, rfl⟩⟩ <;>
    simp only [Word.limit, Prefix.size] <;> omega

theorem frameLength_cons (hfront : front.length ≤ maxAllocation) :
    frameLength ⟨front ++ a :: b :: c :: d :: rest, front.length⟩ =
      if 0 ≤ Prefix.decode a b c d ∧ Prefix.decode a b c d ≤ rest.length then .ok (Prefix.decode a b c d).toNat
      else refuse (.corruptFrame front.length) := by
  have hlt := Prefix.decode_lt a b c d
  have hlength : (front ++ a :: b :: c :: d :: rest).length = front.length + (Prefix.size + rest.length) := by
    simp [Prefix.size]
    omega
  have hheader : header ⟨front ++ a :: b :: c :: d :: rest, front.length⟩ = .ok (Prefix.decode a b c d) := by
    simp [header]
  have hroom : Prefix.size ≤ front.length + (Prefix.size + rest.length) - front.length := by omega
  simp only [frameLength, hheader, hlength]
  rw [require_pos hroom, ok_bind, ok_bind]
  by_cases hneg : 0 ≤ Prefix.decode a b c d
  · obtain ⟨hstart, hstop⟩ := add_offset (n := (Prefix.decode a b c d).toNat) hfront (by omega)
    rw [require_pos hneg, ok_bind, hstart, ok_bind, hstop, ok_bind]
    by_cases hpast : Prefix.decode a b c d ≤ rest.length
    · rw [require_pos (by omega), if_pos ⟨hneg, hpast⟩]
      rfl
    · rw [require_neg (by omega), if_neg (fun h => hpast h.2)]
      rfl
  · rw [require_neg hneg, if_neg (fun h => hneg h.1)]
    rfl

theorem frameLength_frame (hfront : front.length ≤ maxAllocation) (hpayload : payload.length < 0x80000000)
    (rest : Bytes) : frameLength ⟨front ++ (frame payload ++ rest), front.length⟩ = .ok payload.length := by
  obtain ⟨a, b, c, d, hframe, hdecode⟩ := frame_cons hpayload
  have hfit : (payload.length : Int) ≤ (payload ++ rest).length := by
    rw [List.length_append]
    omega
  rw [hframe]
  simp only [List.cons_append]
  rw [frameLength_cons hfront, hdecode, if_pos ⟨Int.natCast_nonneg _, hfit⟩, Int.toNat_natCast]

theorem frameLength_broken (hfront : front.length ≤ maxAllocation) (h : Broken rest) :
    frameLength ⟨front ++ rest, front.length⟩ = refuse (.corruptFrame front.length) := by
  cases h with
  | short _ few =>
      have hfew : ¬ Prefix.size ≤ (front ++ rest).length - front.length := by
        rw [List.length_append]
        omega
      rw [frameLength, require_neg hfew]
      rfl
  | negative sign =>
      rw [frameLength_cons hfront, if_neg (by omega)]
  | past more =>
      rw [frameLength_cons hfront, if_neg (by omega)]

/-! ## Moving and looking -/

theorem advance_frame (hfront : front.length ≤ maxAllocation) (hpayload : payload.length < 0x80000000)
    (data : Bytes) : advance ⟨data, front.length⟩ payload.length = .ok ⟨data, (front ++ frame payload).length⟩ := by
  have hsize : Word.add Prefix.size payload.length = .ok (Prefix.size + payload.length) :=
    Word.add_eq_ok.mpr ⟨by simp only [Word.limit, Prefix.size]; omega, rfl⟩
  have hstop : Word.add front.length (Prefix.size + payload.length) =
      .ok (front.length + (Prefix.size + payload.length)) := by
    have hlimit := (Word.add_eq_ok.mp (add_offset hfront hpayload).2).1
    exact Word.add_eq_ok.mpr ⟨by omega, rfl⟩
  rw [advance, hsize, ok_bind, hstop, ok_bind, List.length_append, length_frame]
  rfl

theorem skip_frame (hfront : front.length ≤ maxAllocation) (hpayload : payload.length < 0x80000000) (rest : Bytes) :
    skip ⟨front ++ (frame payload ++ rest), front.length⟩ =
      .ok ⟨front ++ (frame payload ++ rest), (front ++ frame payload).length⟩ := by
  rw [skip, frameLength_frame hfront hpayload, ok_bind, advance_frame hfront hpayload]

theorem skip_broken (hfront : front.length ≤ maxAllocation) (h : Broken rest) :
    skip ⟨front ++ rest, front.length⟩ = refuse (.corruptFrame front.length) := by
  rw [skip, frameLength_broken hfront h, refuse_bind]

theorem peek_frame (region : Region) (hfront : front.length ≤ maxAllocation) (hpayload : payload.length < 0x80000000)
    (rest : Bytes) :
    peek region ⟨front ++ (frame payload ++ rest), front.length⟩ =
      .ok ⟨region, front ++ (frame payload ++ rest), front.length + Prefix.size, payload.length⟩ := by
  have hfit : front.length + Prefix.size + payload.length ≤ (front ++ (frame payload ++ rest)).length := by
    simp only [List.length_append, length_frame]
    omega
  rw [peek, frameLength_frame hfront hpayload, ok_bind, (add_offset hfront hpayload).1, ok_bind,
    View.ofRange_of_le hfit]

theorem peekWhole_frame (region : Region) (hfront : front.length ≤ maxAllocation)
    (hpayload : payload.length < 0x80000000) (rest : Bytes) :
    peekWhole region ⟨front ++ (frame payload ++ rest), front.length⟩ =
      .ok ⟨region, front ++ (frame payload ++ rest), front.length, Prefix.size + payload.length⟩ := by
  have hfit : front.length + (Prefix.size + payload.length) ≤ (front ++ (frame payload ++ rest)).length := by
    simp only [List.length_append, length_frame]
    omega
  have hsize : Word.add Prefix.size payload.length = .ok (Prefix.size + payload.length) :=
    Word.add_eq_ok.mpr ⟨by simp only [Word.limit, Prefix.size]; omega, rfl⟩
  rw [peekWhole, frameLength_frame hfront hpayload, ok_bind, hsize, ok_bind, View.ofRange_of_le hfit]

/-! ## Along a log -/

/-- The cursor behind the first `i` frames of the log. -/
def onFrame (log : Log) (i : Nat) : Cursor := ⟨log.bytes, log.offset i⟩

variable {log : Log} {i : Nat}

/-- The view of payload `i` in the bytes of the log. -/
def payloadView (region : Region) (log : Log) (i : Nat) : View UInt8 :=
  ⟨region, log.bytes, log.offset i + Prefix.size, (log.getD i []).length⟩

theorem elements_payloadView (region : Region) (h : i < log.length) :
    (payloadView region log i).elements = log[i] := by
  have hdrop : log.bytes.drop (log.offset i + Prefix.size) = log[i] ++ bytes (log.drop (i + 1)) := by
    rw [bytes_split h, Log.offset, List.drop_append, List.drop_of_length_le (Nat.le_add_right ..),
      Nat.add_sub_cancel_left, List.nil_append, frame, List.append_assoc]
    rfl
  rw [View.elements, payloadView, hdrop, List.getD_eq_getElem log [] h, List.take_left]

theorem elements_payloadViews (region : Region) {start count : Nat} (h : start + count ≤ log.length) :
    (List.range' start count).map (fun i => (payloadView region log i).elements) = (log.drop start).take count := by
  apply List.ext_getElem
  · simp only [List.length_map, List.length_range', List.length_take, List.length_drop]
    omega
  · intro k hk hk'
    simp only [List.length_map, List.length_range'] at hk
    simp only [List.getElem_map, List.getElem_range', Nat.one_mul, List.getElem_take, List.getElem_drop]
    exact elements_payloadView region (by omega)

section
variable (hlog : log.Readable) (h : i < log.length)
include hlog h

theorem short_onFrame : (bytes (log.take i)).length ≤ maxAllocation ∧ log[i].length < 0x80000000 :=
  ⟨Nat.le_trans (log.offset_le i) hlog.addressable, hlog.short _ (List.getElem_mem h)⟩

theorem frameLength_onFrame : frameLength (onFrame log i) = .ok log[i].length := by
  obtain ⟨hfront, hpayload⟩ := short_onFrame hlog h
  have hlength := frameLength_frame hfront hpayload (bytes (log.drop (i + 1)))
  rwa [← bytes_split h] at hlength

theorem skip_onFrame : skip (onFrame log i) = .ok (onFrame log (i + 1)) := by
  obtain ⟨hfront, hpayload⟩ := short_onFrame hlog h
  have hskip := skip_frame hfront hpayload (bytes (log.drop (i + 1)))
  rw [← bytes_split h] at hskip
  rw [onFrame, Log.offset, hskip, onFrame, offset_succ h, List.length_append, length_frame, Log.offset]

theorem peek_onFrame (region : Region) : peek region (onFrame log i) = .ok (payloadView region log i) := by
  obtain ⟨hfront, hpayload⟩ := short_onFrame hlog h
  have hpeek := peek_frame region hfront hpayload (bytes (log.drop (i + 1)))
  rw [← bytes_split h] at hpeek
  rw [payloadView, List.getD_eq_getElem log [] h]
  exact hpeek

theorem peekWhole_onFrame (region : Region) : peekWhole region (onFrame log i) =
    .ok ⟨region, log.bytes, log.offset i, Prefix.size + log[i].length⟩ := by
  obtain ⟨hfront, hpayload⟩ := short_onFrame hlog h
  have hpeek := peekWhole_frame region hfront hpayload (bytes (log.drop (i + 1)))
  rwa [← bytes_split h] at hpeek

theorem next_onFrame (region : Region) :
    next region (onFrame log i) = .ok (payloadView region log i, onFrame log (i + 1)) := by
  obtain ⟨hfront, hpayload⟩ := short_onFrame hlog h
  have hadvance : advance (onFrame log i) (log.getD i []).length = .ok (onFrame log (i + 1)) := by
    rw [List.getD_eq_getElem log [] h, onFrame, Log.offset, advance_frame hfront hpayload, onFrame, offset_succ h,
      List.length_append, length_frame, Log.offset]
  rw [next, peek_onFrame hlog h, ok_bind, payloadView, hadvance]
  rfl

end

theorem skipMany_onFrame (hlog : log.Readable) (n : Nat) (h : i + n ≤ log.length) :
    skipMany n (onFrame log i) = .ok (onFrame log (i + n)) := by
  induction n generalizing i with
  | zero => rfl
  | succ n ih =>
      rw [skipMany, skip_onFrame hlog (by omega), ok_bind, ih (by omega)]
      congr 2
      omega

end Cursor
end FrameLog
