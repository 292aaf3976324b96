import FrameLog.Proofs.Store.Twins

/-!
# What lies behind the data does not show

Whatever was in a buffer before, and whatever frames a store has held, nothing of it can be read once it lies behind the
data: two stores that differ there only cannot be told apart (`spare_bytes_unobservable`).
-/

namespace FrameLog.Store

open Log

variable {s t : Store} {b c : Buffer} {log log' : Log} {p : Nat}

/-- The stores differ at most in the bytes behind their data. -/
structure Indistinct (s t : Store) : Prop where
  bucketSize : s.bucketSize = t.bucketSize
  buckets : s.buckets = t.buckets
  frameCount : s.frameCount = t.frameCount
  dataEnd : s.dataEnd = t.dataEnd
  capacity : s.buffer.map Buffer.capacity = t.buffer.map Buffer.capacity
  expansion : s.buffer.map Buffer.expansion = t.buffer.map Buffer.expansion
  front : s.buffer.map (·.bytes.take s.dataEnd) = t.buffer.map (·.bytes.take t.dataEnd)

/-- The same requests always meet the same answers, and the stores stay indistinct. -/
def Interchangeable (s t : Store) : Prop :=
  ∀ requests, (run requests s).1 = (run requests t).1 ∧ Indistinct (run requests s).2 (run requests t).2

/-- The operation leaves a store in use with no frame and with the buffer it has. -/
def Operation.empties : Operation → Bool
  | .reset _ | .clear none => true
  | _ => false

theorem Indistinct.twins (h : Indistinct s t) (hs : Tracks log s) (ht : Tracks log' t) :
    Twins s.bucketSize s.bucketSize s t := by
  have hcapacity := h.capacity
  have hexpansion := h.expansion
  have hfront := h.front
  rcases hs with hs | ⟨b, hs⟩
  · rcases ht with ht | ⟨c, ht⟩
    · exact .released hs ht rfl h.bucketSize.symm
    · rw [hs.buffer, ht.live] at hcapacity
      cases hcapacity
  · rcases ht with ht | ⟨c, ht⟩
    · rw [hs.live, ht.buffer] at hcapacity
      cases hcapacity
    · rw [hs.live, ht.live] at hcapacity hexpansion hfront
      simp only [Option.map_some, Option.some.injEq, hs.take_eq, ht.take_eq] at hcapacity hexpansion hfront
      -- The bytes in front can be read as frames in one way only.
      obtain rfl : log = log' := hs.framed.unique (hfront ▸ ht.framed)
      exact .holding hs ht hcapacity hexpansion rfl h.bucketSize.symm

theorem Twins.indistinct (h : Twins p p s t) : Indistinct s t where
  bucketSize := h.bucketSize_eq rfl
  buckets := h.buckets_eq rfl
  frameCount := h.frameCount_eq
  dataEnd := h.dataEnd_eq
  capacity := by
    cases h with
    | released left right => rw [left.buffer, right.buffer]
    | holding left right hcapacity => rw [left.live, right.live, Option.map_some, Option.map_some, hcapacity]
  expansion := by
    cases h with
    | released left right => rw [left.buffer, right.buffer]
    | holding left right _ hexpansion => rw [left.live, right.live, Option.map_some, Option.map_some, hexpansion]
  front := by
    cases h with
    | released left right =>
        rw [left.buffer, right.buffer]
        rfl
    | holding left right => rw [left.live, right.live, Option.map_some, Option.map_some, left.take_eq, right.take_eq]

theorem Twins.interchangeable (h : Twins p p s t) : Interchangeable s t := by
  intro requests
  obtain ⟨-, hanswers, hlast⟩ := h.run (.inl rfl)
  exact ⟨hanswers rfl, hlast.indistinct⟩

/-! ## Fresh stores -/

theorem ofBuffer_eq (b : Buffer) (hp : 0 < p) : ofBuffer b p = .ok (ofParts b p .fresh 0 0) := by
  rw [ofBuffer, Config.validateBucketSize, require_pos (Nat.ne_of_gt hp)]
  rfl

theorem interchangeable_fresh (hp : 0 < p) (hle : b.capacity ≤ maxAllocation) (hcapacity : b.capacity = c.capacity)
    (hexpansion : b.expansion = c.expansion) :
    Interchangeable (ofParts b p .fresh 0 0) (ofParts c p .fresh 0 0) :=
  (Twins.fresh hp hp hle hcapacity hexpansion).interchangeable

theorem interchangeable_zeros (hp : 0 < p) (hle : b.capacity ≤ maxAllocation) :
    Interchangeable (ofParts b p .fresh 0 0) (ofParts ⟨Bytes.zeros b.capacity, b.expansion⟩ p .fresh 0 0) :=
  interchangeable_fresh hp hle (Buffer.capacity_zeros ..).symm rfl

theorem Holds.perform_empties (h : Holds s b log) {request : Request} (hempties : request.operation.empties) :
    (request.perform s).1.succeeds ∧ Interchangeable (request.perform s).2
      (ofParts ⟨Bytes.zeros b.capacity, b.expansion⟩ s.bucketSize .fresh 0 0) := by
  rcases request with ⟨alloc, operation⟩
  cases operation with
  | reset clearBuffer =>
      simp only [Request.perform, Operation.perform, h.reset_apply]
      refine ⟨rfl, interchangeable_fresh h.bucketSize ?_ ?_ ?_⟩
      · rw [Buffer.capacity_zeroedIf]
        exact h.addressable
      · rw [Buffer.capacity_zeroedIf, Buffer.capacity_zeros]
      · rw [Buffer.expansion_zeroedIf]
  | clear capacity =>
      cases capacity with
      | none =>
          simp only [Request.perform, Operation.perform, h.clear_none]
          exact ⟨rfl, interchangeable_zeros h.bucketSize h.addressable⟩
      | some size => cases hempties
  | append payload => cases hempties
  | appendText text => cases hempties
  | extend payloads => cases hempties
  | dispose => cases hempties
  | read reading => cases hempties

/-- Stores that runs can lead to and that differ behind their data only give the same answers for ever. So whatever is
in the buffer that a store is made over, or has been in a store that is emptied, the store is as good as one over zeros;
and if the buffer is cleared with it, it is that store. -/
theorem spare_bytes_unobservable :
    (∀ s t, Reachable s → Reachable t → Indistinct s t → Interchangeable s t) ∧
    (∀ b p s, b.capacity ≤ maxAllocation → ofBuffer b p = .ok s →
      ∃ fresh, ofBuffer ⟨Bytes.zeros b.capacity, b.expansion⟩ p = .ok fresh ∧ Interchangeable s fresh) ∧
    ∀ s, Reachable s → s.isDisposed = false → ∃ b fresh, s.buffer = some b ∧
      ofBuffer ⟨Bytes.zeros b.capacity, b.expansion⟩ s.bucketSize = .ok fresh ∧
      (∀ request : Request, request.operation.empties →
        (request.perform s).1.succeeds ∧ Interchangeable (request.perform s).2 fresh) ∧
      reset true s = .ok ⟨⟩ fresh := by
  refine ⟨?_, ?_, ?_⟩
  · intro s t hs ht hindistinct
    obtain ⟨log, hs⟩ := hs.tracks
    obtain ⟨log', ht⟩ := ht.tracks
    exact (hindistinct.twins hs ht).interchangeable
  · intro b p s hle hbuild
    obtain ⟨hsize, hholds⟩ := ofBuffer_holds hle hbuild
    have hp : 0 < p := hsize ▸ hholds.bucketSize
    cases hbuild.symm.trans (ofBuffer_eq b hp)
    exact ⟨_, ofBuffer_eq _ hp, interchangeable_zeros hp hle⟩
  · intro s hreachable hlive
    obtain ⟨log, htracks⟩ := hreachable.tracks
    obtain ⟨b, hholds⟩ := htracks.holds hlive
    exact ⟨b, _, hholds.live, ofBuffer_eq _ hholds.bucketSize, fun request => hholds.perform_empties,
      hholds.reset_apply true⟩

/-- Over a buffer with frames of somebody else in it, a store with one frame is as one over zeros. -/
theorem spare_bytes_unobservable_old_frames :
    let requests : List Request := [⟨fun _ => false, .append [7]⟩]
    let used := ofParts ⟨[1, 0, 0, 0, 5, 1, 0, 0, 0, 6, 9], .fixed⟩ 1 .fresh 0 0
    let unused := ofParts ⟨Bytes.zeros 11, .fixed⟩ 1 .fresh 0 0
    let s := (run requests used).2
    let t := (run requests unused).2
    s.buffer ≠ t.buffer ∧ Interchangeable s t ∧ Interchangeable used unused ∧ reset true s = .ok ⟨⟩ unused := by
  intro requests used unused s t
  have hused : ofBuffer ⟨[1, 0, 0, 0, 5, 1, 0, 0, 0, 6, 9], .fixed⟩ 1 = .ok used := rfl
  have hs : Reachable s := ⟨.ofBuffer _ 1 (by decide), fun _ => false, used, requests, hused, rfl⟩
  have hunused : ofBuffer ⟨Bytes.zeros 11, .fixed⟩ 1 = .ok unused := rfl
  have ht : Reachable t := ⟨.ofBuffer _ 1 (by decide), fun _ => false, unused, requests, hunused, rfl⟩
  have hindistinct : Indistinct s t := {
    bucketSize := by decide +kernel
    buckets := by decide +kernel
    frameCount := by decide +kernel
    dataEnd := by decide +kernel
    capacity := by decide +kernel
    expansion := by decide +kernel
    front := by decide +kernel }
  have hlive : s.isDisposed = false := by decide +kernel
  have hbuffer : s.buffer = some ⟨[1, 0, 0, 0, 7, 1, 0, 0, 0, 6, 9], .fixed⟩ := by decide +kernel
  have hsize : s.bucketSize = 1 := by decide +kernel
  obtain ⟨fresh, hfresh, halike⟩ := spare_bytes_unobservable.2.1 _ 1 used (by decide) hused
  cases hfresh
  obtain ⟨b, fresh', hb, hfresh', -, hreset⟩ := spare_bytes_unobservable.2.2 s hs hlive
  cases hb.symm.trans hbuffer
  rw [hsize] at hfresh'
  cases hfresh'
  exact ⟨by decide +kernel, spare_bytes_unobservable.1 s t hs ht hindistinct, halike, hreset⟩

end FrameLog.Store
