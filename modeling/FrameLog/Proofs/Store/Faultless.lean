import FrameLog.Proofs.Store.Creation
import FrameLog.Proofs.Store.Refinement

/-!
# No fault is reachable

A request can be turned down. But whatever a run has made of a store, no number leaves its word in it, nothing past the
end is looked at, and no empty table is asked for its last bucket (`no_fault_reachable`).
-/

namespace FrameLog

open Log

/-- The view looks at these bytes, and not past their end. -/
def View.Within (data : Bytes) (view : View UInt8) : Prop :=
  view.source = data ∧ view.start + view.length ≤ data.length

namespace Store

open Cursor (payloadView)

variable {α : Type} {s t : Store} {buffer : Buffer} {log : Log} {data : Bytes} {alloc : Allocator} {fault : Fault}

/-! ## What an answer shows -/

def Value.views : Value → List (View UInt8)
  | .view shown => [shown]
  | .pulled items _ => items.filterMap fun
    | some (.ok shown) => some shown
    | _ => none
  | _ => []

/-- All views that an answer gives, to the visitor or as its value. -/
def Answer.views (answer : Answer) : List (View UInt8) :=
  answer.visits.map Prod.snd ++ match answer.outcome with
    | .ok value => value.views
    | .error _ => []

def Answer.Within (data : Bytes) (answer : Answer) : Prop := ∀ view ∈ answer.views, view.Within data

theorem within_nil {answer : Answer} (h : answer.views = []) : answer.Within data := by
  rw [Answer.Within, h]
  exact nofun

theorem within_map {x : Outcome α} {value : α → Value}
    (h : ∀ a, x = .ok a → ∀ view ∈ (value a).views, view.Within data) :
    Answer.Within data { outcome := x.map value } := by
  cases x with
  | error e => exact within_nil rfl
  | ok a => exact h a rfl

theorem within_map_view {x : Outcome (View UInt8)} (h : ∀ view, x = .ok view → view.Within data) :
    Answer.Within data { outcome := x.map .view } := by
  refine within_map fun shown hshown view hview => ?_
  obtain rfl := List.mem_singleton.mp hview
  exact h view hshown

theorem Released.views_eq_nil (h : Released s) (reading : Reading) : (reading.answer s).views = [] := by
  by_cases hneeds : (Operation.read reading).needsBuffer
  · rw [h.answer_refused hneeds]
    rfl
  · cases reading with
    | stats => rfl
    | table => rfl
    | description => rfl
    | _ => exact absurd rfl hneeds

theorem payloadView_within {i : Nat} (h : i < log.length) : (payloadView Buffer.region log i).Within log.bytes := by
  have hle := log.offset_le (i + 1)
  rw [offset_succ h] at hle
  refine ⟨rfl, ?_⟩
  simp only [payloadView, List.getD_eq_getElem log [] h]
  omega

theorem payloadViews_within {start count : Nat} (h : start + count ≤ log.length) :
    ∀ view ∈ (List.range' start count).map (payloadView Buffer.region log), view.Within log.bytes := by
  intro view hview
  obtain ⟨i, hi, rfl⟩ := List.mem_map.mp hview
  have hlt := (List.mem_range'_1.mp hi).2
  exact payloadView_within (by omega)

theorem between_within {start stop : Nat} (h : start ≤ stop) :
    View.Within log.bytes ⟨Buffer.region, log.bytes, log.offset start, log.offset stop - log.offset start⟩ := by
  have hmono := log.offset_mono h
  have hle := log.offset_le stop
  refine ⟨rfl, ?_⟩
  simp only
  omega

theorem Frames.Along.views_pulled {start count : Nat} {f : Frames} (h : Along log start count f) (n : Nat) :
    (f.pulled n).views = (List.range' start (min n count)).map (payloadView Buffer.region log) := by
  obtain ⟨g, -, hpull⟩ := h.pull_eq n
  rw [pulled, hpull]
  simp [Value.views, List.filterMap_append, List.filterMap_map]

/-- A visit that takes down what it is shown has it all at the end. -/
theorem visited_eq (views : List (View UInt8)) (step : Nat) (visits : List (Nat × View UInt8)) :
    ((views.zipIdx step).foldl (fun visits (view, step) => visits ++ [(step, view)]) visits).map Prod.snd =
      visits.map Prod.snd ++ views := by
  induction views generalizing step visits with
  | nil => exact (List.append_nil _).symm
  | cons view rest ih =>
      rw [List.zipIdx_cons, List.foldl_cons, ih, List.map_append, List.append_assoc]
      rfl

namespace Holds

variable (h : Holds s buffer log)
include h

theorem within_range (start stop pulls : Nat) :
    Answer.Within log.bytes { outcome := (s.range start stop).map (Frames.pulled pulls) } := by
  rcases h.range_cases start stop with ⟨f, hrange, halong⟩ | ⟨index, length, hrange⟩
  · rw [hrange]
    refine within_map fun g hg => ?_
    cases hg
    rw [halong.views_pulled]
    have hwithin := halong.within
    exact payloadViews_within (by omega)
  · rw [hrange]
    exact within_nil rfl

theorem within_iterate (start stop : Nat) : ((Reading.iterate start stop).answer s).Within log.bytes := by
  rw [Reading.answer, h.iterate_eq]
  by_cases hstop : log.length < stop
  · rw [if_pos hstop]
    exact within_nil rfl
  by_cases hstart : stop < start
  · rw [if_neg hstop, if_pos hstart]
    exact within_nil rfl
  · rw [if_neg hstop, if_neg hstart, Answer.Within, Answer.views]
    simp only [visited_eq, Value.views, List.map_nil, List.nil_append, List.append_nil]
    exact payloadViews_within (by omega)

theorem within_answer (reading : Reading) : (reading.answer s).Within log.bytes := by
  cases reading with
  | get i =>
      refine within_map_view fun view hview => ?_
      rw [h.get_eq] at hview
      split at hview
      · next hi =>
          cases hview
          exact payloadView_within hi
      · cases hview
  | getWithPrefix i =>
      refine within_map_view fun view hview => ?_
      rw [h.getWithPrefix_eq] at hview
      split at hview
      · cases hview
        exact between_within (Nat.le_succ i)
      · cases hview
  | getRange start count =>
      refine within_map_view fun view hview => ?_
      rw [h.getRange_eq] at hview
      split at hview
      · cases hview
      split at hview
      · cases hview
      split at hview
      · cases hview
      · cases hview
        exact between_within (Nat.le_add_right ..)
  | iterate start stop => exact h.within_iterate start stop
  | range start stop pulls => exact h.within_range start stop pulls
  | frames pulls => exact h.within_range 0 s.frameCount pulls
  | bytes =>
      refine within_map_view fun view hview => ?_
      rw [h.bytes_eq] at hview
      cases hview
      exact ⟨rfl, Nat.le_of_eq (Nat.zero_add _)⟩
  | written =>
      rw [Reading.answer, h.written_eq]
      exact within_nil rfl
  | stats => exact within_nil rfl
  | table => exact within_nil rfl
  | description => exact within_nil rfl

end Holds

/-! ## What the next request relies on -/

/-- Whatever is asked of the store next, nothing goes wrong: neither in what it does nor in what it shows. -/
structure Faultless (s : Store) : Prop where
  answers : ∀ (request : Request) fault, .fault fault ∉ (request.perform s).1.failures
  views : ∀ (reading : Reading), ∀ view ∈ (reading.answer s).views, ∃ data, s.written = .ok data ∧ view.Within data
  written : ∀ data, s.written = .ok data → data.length = s.dataEnd
  capacity : s.dataEnd ≤ s.capacity ∧ s.capacity ≤ maxAllocation
  cursor : ∀ i c, s.seek i = .ok c → ∃ length, c.frameLength = .ok length ∧
    c.offset + (Prefix.size + length) ≤ c.data.length
  bucket : ∀ bucket ∈ s.buckets, bucket.totalLength ≤ Bucket.maxLength ∧
    ∃ stop, bucket.endOffset = .ok stop ∧ stop ≤ s.dataEnd
  last : s.isDisposed = false → 0 < s.bucketSize ∧
    ∃ bucket, s.buckets.last = .ok bucket ∧ bucket.endOffset = .ok s.dataEnd
  /-- What is appended is all of the payload, behind a prefix that counts it. -/
  appended : ∀ alloc payload bucket t, append alloc payload s = .ok bucket t → ∃ front a b c d,
    s.written = .ok front ∧ t.written = .ok (front ++ a :: b :: c :: d :: payload) ∧
      Prefix.decode a b c d = payload.length

theorem Released.faultless (h : Released s) : Faultless s where
  answers request fault hfault := (h.perform_kept request).1 _ hfault
  views reading view hview := by
    rw [h.views_eq_nil] at hview
    cases hview
  written data hdata := by
    rw [h.written_eq] at hdata
    cases hdata
  capacity := by
    rw [h.dataEnd, h.capacity_eq]
    exact ⟨Nat.le_refl 0, Nat.zero_le _⟩
  cursor i c hseek := by
    rw [h.seek_eq] at hseek
    cases hseek
  bucket := by
    rw [h.buckets]
    exact nofun
  last hlive := by
    rw [h.isDisposed_eq] at hlive
    cases hlive
  appended alloc payload bucket t happend := by
    rw [h.append_eq] at happend
    cases happend

namespace Holds

variable (h : Holds s buffer log)
include h

theorem frameLength_seek {i : Nat} {c : Cursor} (hseek : s.seek i = .ok c) :
    ∃ length, c.frameLength = .ok length ∧ c.offset + (Prefix.size + length) ≤ c.data.length := by
  rw [h.seek_eq] at hseek
  split at hseek
  · next hi =>
      cases hseek
      have hle := log.offset_le (i + 1)
      rw [offset_succ hi] at hle
      exact ⟨_, Cursor.frameLength_onFrame h.readable hi, hle⟩
  · cases hseek

theorem bucket_within {bucket : Bucket} (hbucket : bucket ∈ s.buckets) : bucket.totalLength ≤ Bucket.maxLength ∧
    ∃ stop, bucket.endOffset = .ok stop ∧ stop ≤ s.dataEnd := by
  rw [h.buckets] at hbucket
  obtain ⟨k, -, rfl⟩ := List.mem_map.mp hbucket
  refine ⟨h.fits k, _, Table.endOffset_group h.sum_le k, ?_⟩
  rw [h.dataEnd, ← sum_sizes]
  exact Table.offset_le_sum ..

theorem written_append {payload : Bytes} {bucket : Bucket} (happend : append alloc payload s = .ok bucket t) :
    ∃ front a b c d, s.written = .ok front ∧ t.written = .ok (front ++ a :: b :: c :: d :: payload) ∧
      Prefix.decode a b c d = payload.length := by
  rcases h.append_cases alloc payload with ⟨t', c, bucket', hdone, hholds, -, -⟩ | ⟨e, hfailed, -⟩
  · cases hdone.symm.trans happend
    obtain ⟨a, b, c, d, hframe, hdecode⟩ := frame_cons (hholds.readable.short payload (by simp))
    refine ⟨log.bytes, a, b, c, d, h.written_eq, ?_, hdecode⟩
    rw [hholds.written_eq, bytes_append, bytes_cons, bytes_nil, List.append_nil, hframe]
  · cases hfailed.symm.trans happend

theorem faultless : Faultless s where
  answers request fault hfault := (h.perform request).1 _ hfault
  views reading view hview := ⟨log.bytes, h.written_eq, h.within_answer reading view hview⟩
  written data hdata := by
    cases h.written_eq.symm.trans hdata
    exact h.dataEnd.symm
  capacity := by
    rw [h.dataEnd, h.capacity_eq]
    exact ⟨h.length_le, h.addressable⟩
  cursor i c := h.frameLength_seek
  bucket bucket := h.bucket_within
  last _ := by
    obtain ⟨last, hlast, hend, -⟩ := h.last_eq
    exact ⟨h.bucketSize, last, hlast, h.dataEnd ▸ hend⟩
  appended alloc payload bucket t := h.written_append

end Holds

theorem Tracks.faultless (h : Tracks log s) : Faultless s := by
  rcases h with hreleased | ⟨buffer, hholds⟩
  · exact hreleased.faultless
  · exact hholds.faultless

/-! ## Making a store -/

theorem adopt_ne_fail (haddressable : buffer.capacity ≤ maxAllocation) (dataLength b : Nat) :
    adopt buffer dataLength b ≠ fail fault := by
  refine bind_ne_fail require_ne_fail fun _ hsize => bind_ne_fail require_ne_fail fun _ hwithin => ?_
  refine bind_ne_fail (fun hfault => ?_) fun _ _ => nofun
  have hle : (buffer.bytes.take dataLength).length ≤ maxAllocation := Nat.le_trans (List.length_take_le' ..) haddressable
  obtain ⟨r, -, hr⟩ := (scan_eq_error_iff (Nat.pos_of_ne_zero (require_eq_ok.mp hsize)) hle).mp hfault
  cases hr

theorem ofBytes_ne_fail (alloc : Allocator) (data : Bytes) (config : Config) :
    ofBytes alloc data config ≠ fail fault := by
  refine bind_ne_fail Config.validate_ne_fail fun _ hvalid => bind_ne_fail Buffer.withCapacity_ne_fail
    fun buffer hbuffer => adopt_ne_fail ?_ _ _
  obtain ⟨_, -, hbuffer⟩ := bind_eq_ok.mp hbuffer
  obtain ⟨_, hgranted, hbuffer⟩ := bind_eq_ok.mp hbuffer
  cases hbuffer
  have hsize := Buffer.request_eq_ok.mp hgranted
  simp only [Buffer.capacity, List.length_append, List.length_drop, Bytes.zeros, List.length_replicate]
  omega

/-- Only creating one asks for room that there may not be. -/
theorem Origin.build_fault {origin : Origin} (h : origin.build alloc = fail fault) :
    (∃ config, origin = .create config) ∧ fault.OfRoom := by
  cases origin with
  | create config => exact ⟨⟨config, rfl⟩, ofRoom_of_create h⟩
  | ofBuffer buffer bucketSize addressable => exact absurd h (bind_ne_fail require_ne_fail fun _ _ => nofun)
  | adopt buffer dataLength bucketSize addressable => exact absurd h (adopt_ne_fail addressable dataLength bucketSize)
  | ofBytes data config => exact absurd h (ofBytes_ne_fail alloc data config)

/-- In no store that a run can lead to does anything go wrong, whatever is asked of it, nor in making one, where only
room for the table can be wanting. -/
theorem no_fault_reachable : (∀ s, Reachable s → Faultless s) ∧
    ∀ (origin : Origin) alloc fault, origin.build alloc = fail fault →
      (∃ config, origin = .create config) ∧ fault.OfRoom := by
  refine ⟨fun s h => ?_, fun origin alloc fault => Origin.build_fault⟩
  obtain ⟨log, htracks⟩ := h.tracks
  exact htracks.faultless

/-- A store with one byte left in its buffer, and one that is not made because its table would be too large. -/
theorem no_fault_reachable_one_byte_left :
    let first := ofParts ⟨Bytes.zeros 16, .fixed⟩ 2 .fresh 0 0
    let s := (run [⟨fun _ => false, .extend [[7], [], [8, 9]]⟩] first).2
    let config : Config := { bucketSize := 1, initialCapacity := 8, expectedFrames := Word.limit }
    s.dataEnd = 15 ∧ Faultless s ∧ create (fun _ => true) config = fail .capacityOverflow ∧
      Fault.OfRoom .capacityOverflow := by
  intro first s config
  have hbuild : Origin.build (fun _ => false) (.ofBuffer ⟨Bytes.zeros 16, .fixed⟩ 2 (by decide)) = .ok first := rfl
  have hreachable : Reachable s := ⟨_, _, first, _, hbuild, rfl⟩
  have hfault : Origin.build (fun _ => true) (.create config) = fail .capacityOverflow := by cbv
  exact ⟨by decide +kernel, no_fault_reachable.1 s hreachable, hfault, (no_fault_reachable.2 _ _ _ hfault).2⟩

end Store
end FrameLog
