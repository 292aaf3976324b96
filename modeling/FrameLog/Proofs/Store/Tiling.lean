import FrameLog.Proofs.Store.Refinement

/-!
# Frames side by side

The views of the frames with their prefixes lie side by side and cover all that is written, and a range of frames is the
stretch that its views cover (`views_tile_bytes`).
-/

namespace FrameLog

open Log

namespace View

variable {α : Type} {region : Region} {source : List α} {start stop : Nat} {views : List (View α)}

/-- The views lie side by side in the source, from `start` up to `stop`. -/
inductive Tiling (region : Region) (source : List α) : Nat → Nat → List (View α) → Prop
  | nil (start : Nat) : Tiling region source start start []
  | cons {start length stop : Nat} {rest : List (View α)} (tail : Tiling region source (start + length) stop rest) :
      Tiling region source start stop (⟨region, source, start, length⟩ :: rest)

/-- From the beginning of one view to the end of another one in the same source. -/
def through (first last : View α) : View α := { first with length := last.start + last.length - first.start }

namespace Tiling

theorem le (h : Tiling region source start stop views) : start ≤ stop := by
  induction h with
  | nil start => exact Nat.le_refl start
  | cons _ ih => exact Nat.le_of_add_right_le ih

theorem start_le (h : Tiling region source start stop views) : ∀ view ∈ views, start ≤ view.start := by
  induction h with
  | nil _ => exact nofun
  | cons _ ih =>
      intro view hview
      rcases List.mem_cons.mp hview with rfl | hview
      · exact Nat.le_refl _
      · exact Nat.le_of_add_right_le (ih view hview)

/-- Each view ends before all that follow it. -/
theorem pairwise (h : Tiling region source start stop views) :
    views.Pairwise fun view later => view.start + view.length ≤ later.start := by
  induction h with
  | nil _ => exact .nil
  | cons tail ih => exact .cons tail.start_le ih

/-- The elements of all the views are those from `start` up to `stop`. -/
theorem elements (h : Tiling region source start stop views) :
    views.flatMap View.elements = (source.drop start).take (stop - start) := by
  induction h with
  | nil _ => simp
  | @cons start length stop rest tail ih =>
      have hlength : stop - start = length + (stop - (start + length)) := by
        have := tail.le
        omega
      rw [List.flatMap_cons, ih, hlength, List.take_add, List.drop_drop]
      rfl

end Tiling
end View

namespace Store

open Cursor (payloadView)

variable {s : Store} {buffer : Buffer} {log : Log} {i start count : Nat}

/-! ## The view of a frame in the bytes of its log -/

def frameView (log : Log) (i : Nat) : View UInt8 :=
  ⟨Buffer.region, log.bytes, log.offset i, log.offset (i + 1) - log.offset i⟩

def frameViews (log : Log) : List (View UInt8) := (List.range' 0 log.length).map (frameView log)

theorem end_frameView (log : Log) (i : Nat) : (frameView log i).start + (frameView log i).length = log.offset (i + 1) :=
  Nat.add_sub_cancel' (log.offset_mono (Nat.le_succ i))

theorem length_frameView (h : i < log.length) : (frameView log i).length = Prefix.size + log[i].length := by
  rw [frameView, offset_succ h, Nat.add_sub_cancel_left]

theorem elements_frameView (h : i < log.length) : (frameView log i).elements = frame log[i] := by
  have hlength := length_frameView h
  rw [View.elements, hlength, ← length_frame, frameView, bytes_split h, Log.offset, List.drop_left, List.take_left]

/-- Without its prefix, the view of a frame is that of its payload. -/
theorem sliceFrom_frameView (h : i < log.length) :
    (frameView log i).sliceFrom Prefix.size = .ok (payloadView Buffer.region log i) := by
  have hlength := length_frameView h
  have hfit : Prefix.size ≤ (frameView log i).length ∧
      (frameView log i).length - Prefix.size ≤ (frameView log i).length - Prefix.size := by omega
  rw [View.sliceFrom, if_neg (Nat.not_lt.mpr hfit.1), View.slice, if_pos hfit, hlength, Nat.add_sub_cancel_left,
    payloadView, List.getD_eq_getElem log [] h]
  rfl

/-- Its prefix counts the bytes of its payload. -/
theorem prefix_frameView (hlog : log.Readable) (h : i < log.length) :
    ∃ a b c d, (frameView log i).elements.take Prefix.size = [a, b, c, d] ∧
      Prefix.decode a b c d = (payloadView Buffer.region log i).length := by
  obtain ⟨a, b, c, d, hframe, hdecode⟩ := frame_cons (hlog.short _ (List.getElem_mem h))
  refine ⟨a, b, c, d, ?_, ?_⟩
  · rw [elements_frameView h, hframe]
    rfl
  · rw [hdecode, payloadView, List.getD_eq_getElem log [] h]

/-- The induction is on the number of frames: the first one ends where the others begin. -/
theorem tiling_frameViews (log : Log) (start count : Nat) :
    View.Tiling Buffer.region log.bytes (log.offset start) (log.offset (start + count))
      ((List.range' start count).map (frameView log)) := by
  induction count generalizing start with
  | zero => exact .nil _
  | succ count ih =>
      have htail := ih (start + 1)
      rw [Nat.add_right_comm, Nat.add_assoc, ← end_frameView log start] at htail
      exact .cons htail

/-! ## In a store -/

/-- The views are those of all frames with their prefixes: side by side they are all that is written, and without its
prefix, which counts it, each is the view of a payload. -/
structure TiledBy (s : Store) (data : Bytes) (views : List (View UInt8)) : Prop where
  count : views.length = s.frameCount
  bytes : s.bytes = .ok (View.whole Buffer.region data)
  withPrefix : ∀ i (h : i < views.length), s.getWithPrefix i = .ok views[i]
  payload : ∀ i (h : i < views.length), ∃ payload, s.get i = .ok payload ∧
    views[i].sliceFrom Prefix.size = .ok payload ∧
    ∃ a b c d, views[i].elements.take Prefix.size = [a, b, c, d] ∧ Prefix.decode a b c d = payload.length
  tiling : View.Tiling Buffer.region data 0 data.length views
  range : ∀ start count (h : start + count ≤ views.length) (some : 0 < count),
    s.getRange start count = .ok (views[start].through views[start + count - 1])

namespace Holds

variable (h : Holds s buffer log)
include h

theorem getRange_within (hsome : 0 < count) (hwithin : start + count ≤ log.length) :
    s.getRange start count =
      .ok ⟨Buffer.region, log.bytes, log.offset start, log.offset (start + count) - log.offset start⟩ := by
  have hlimit := h.length_lt_limit
  rw [h.getRange_eq, if_neg (Nat.ne_of_gt hsome), if_neg (by omega), if_neg (Nat.not_lt.mpr hwithin)]

theorem tiledBy : TiledBy s log.bytes (frameViews log) := by
  have hlength : (frameViews log).length = log.length := by simp [frameViews]
  have hview {i : Nat} (hi : i < (frameViews log).length) : (frameViews log)[i] = frameView log i := by
    simp [frameViews]
  exact {
    count := hlength.trans h.count.symm
    bytes := h.bytes_eq
    withPrefix := fun i hi => by
      rw [hview hi, h.getWithPrefix_eq, if_pos (hlength ▸ hi)]
      rfl
    payload := fun i hi => by
      have hi' : i < log.length := hlength ▸ hi
      refine ⟨_, by rw [h.get_eq, if_pos hi'], ?_, ?_⟩
      · rw [hview hi]
        exact sliceFrom_frameView hi'
      · rw [hview hi]
        exact prefix_frameView h.readable hi'
    tiling := by
      have htiling := tiling_frameViews log 0 log.length
      rwa [Nat.zero_add, offset_zero, offset_length] at htiling
    range := fun start count hwithin hsome => by
      have hlast : start + count - 1 + 1 = start + count := by omega
      rw [h.getRange_within hsome (hlength ▸ hwithin), hview, hview, View.through, end_frameView, hlast]
      rfl }

theorem getRange_whole (hsome : 0 < log.length) : s.getRange 0 log.length = s.bytes := by
  rw [h.getRange_within hsome (by omega), h.bytes_eq, Nat.zero_add, offset_length]
  rfl

/-- Of two ranges side by side, one begins where the other ends, and together they are one range. -/
theorem getRange_append {more : Nat} (hsome : 0 < count) (hmore : 0 < more)
    (hwithin : start + count + more ≤ log.length) :
    ∃ front back, s.getRange start count = .ok front ∧ s.getRange (start + count) more = .ok back ∧
      back.start = front.start + front.length ∧ s.getRange start (count + more) = .ok (front.through back) := by
  have hfront := log.offset_mono (Nat.le_add_right start count)
  have hback := log.offset_mono (Nat.le_add_right (start + count) more)
  refine ⟨_, _, h.getRange_within hsome (by omega), h.getRange_within hmore hwithin, by simp only; omega, ?_⟩
  rw [h.getRange_within (by omega) (by omega), View.through, ← Nat.add_assoc]
  simp only
  congr 2
  omega

theorem getRange_outside (houtside : count = 0 ∨ log.length < start + count) :
    s.getRange start count = refuse (if count = 0 then .badArgument .emptyRange
      else .outOfRange (Word.saturatingAdd start count) log.length) := by
  rw [h.getRange_eq]
  by_cases hcount : count = 0
  · rw [if_pos hcount, if_pos hcount]
  rw [if_neg hcount, if_neg hcount, Word.saturatingAdd]
  by_cases hlimit : Word.limit < start + count
  · rw [if_pos hlimit, Nat.min_eq_right (Nat.le_of_lt hlimit)]
  · rw [if_neg hlimit, if_pos (by omega), Nat.min_eq_left (Nat.not_lt.mp hlimit)]

end Holds

/-- In every store in use that a run can lead to, the views of the frames with their prefixes tile what is written, in
order and without overlap. A range of frames is the stretch of their views: all frames are all that is written, and
ranges side by side make one range. What is no range of frames is turned down. -/
theorem views_tile_bytes (h : Reachable s) (hlive : s.isDisposed = false) :
    (∃ data views, s.written = .ok data ∧ TiledBy s data views ∧ views.flatMap View.elements = data ∧
      views.Pairwise fun view later => view.start + view.length ≤ later.start) ∧
    (0 < s.frameCount → s.getRange 0 s.frameCount = s.bytes) ∧
    (∀ start count more, 0 < count → 0 < more → start + count + more ≤ s.frameCount →
      ∃ front back, s.getRange start count = .ok front ∧ s.getRange (start + count) more = .ok back ∧
        back.start = front.start + front.length ∧ s.getRange start (count + more) = .ok (front.through back)) ∧
    ∀ start count, count = 0 ∨ s.frameCount < start + count →
      s.getRange start count = refuse (if count = 0 then .badArgument .emptyRange
        else .outOfRange (Word.saturatingAdd start count) s.frameCount) := by
  obtain ⟨buffer, log, hholds⟩ := h.holds hlive
  have htiled := hholds.tiledBy
  rw [hholds.count]
  refine ⟨⟨log.bytes, _, hholds.written_eq, htiled, ?_, htiled.tiling.pairwise⟩, hholds.getRange_whole, ?_, ?_⟩
  · rw [htiled.tiling.elements, Nat.sub_zero, List.drop_zero, List.take_length]
  · exact fun start count more => hholds.getRange_append
  · exact fun start count => hholds.getRange_outside

/-- A payload of one byte, none, and one of two, the last in a bucket of its own. -/
theorem views_tile_bytes_across_buckets :
    let first := ofParts ⟨Bytes.zeros 16, .fixed⟩ 2 .fresh 0 0
    let s := (run [⟨fun _ => false, .extend [[7], [], [8, 9]]⟩] first).2
    (∃ views, views.length = 3 ∧ TiledBy s [1, 0, 0, 0, 7, 0, 0, 0, 0, 2, 0, 0, 0, 8, 9] views) ∧
      s.getRange 0 3 = s.bytes ∧ s.getRange 1 0 = refuse (.badArgument .emptyRange) ∧
      s.getRange 2 Word.limit = refuse (.outOfRange Word.limit 3) := by
  intro first s
  have hbuild : Origin.build (fun _ => false) (.ofBuffer ⟨Bytes.zeros 16, .fixed⟩ 2 (by decide)) = .ok first := rfl
  have hreachable : Reachable s := ⟨_, _, first, _, hbuild, rfl⟩
  have hlive : s.isDisposed = false := by decide +kernel
  have hcount : s.frameCount = 3 := by decide +kernel
  have hwritten : s.written = .ok [1, 0, 0, 0, 7, 0, 0, 0, 0, 2, 0, 0, 0, 8, 9] := by decide +kernel
  obtain ⟨⟨data, views, hdata, htiled, -⟩, hwhole, -, houtside⟩ := views_tile_bytes hreachable hlive
  cases hdata.symm.trans hwritten
  rw [hcount] at hwhole houtside
  exact ⟨⟨views, htiled.count.trans hcount, htiled⟩, hwhole (by decide), houtside 1 0 (.inl rfl),
    houtside 2 Word.limit (.inr (by decide))⟩

end Store
end FrameLog
