import FrameLog.Proofs.Store.Answers

/-!
# Disposing is for good

A store that has been disposed of stays as it is, whatever is asked of it, and turns down all that needs its buffer
(`dispose_permanent`). One kind of request is turned down for another reason: a range of no frames, or of more than can
be counted, is refused before it is looked whether there is a store.
-/

namespace FrameLog.Store

variable {σ : Type} {s : Store}

/-- What disposing leaves. -/
structure Released (s : Store) : Prop where
  buffer : s.buffer = none
  buckets : s.buckets = []
  count : s.frameCount = 0
  dataEnd : s.dataEnd = 0

theorem released_dispose (s : Store) :
    Released { s with buffer := none, buckets := [], frameCount := 0, dataEnd := 0 } :=
  ⟨rfl, rfl, rfl, rfl⟩

def Operation.needsBuffer : Operation → Bool
  | .dispose | .extend [] | .read .stats | .read .table | .read .description => false
  | _ => true

/-- Why a range is turned down that no store could give, where no frame is left. -/
def Operation.malformed? : Operation → Option Refusal
  | .read (.getRange start count) =>
    if count = 0 then some (.badArgument .emptyRange)
    else if Word.limit < start + count then some (.outOfRange Word.limit 0)
    else none
  | _ => none

theorem Operation.benign_malformed? (operation : Operation) :
    Failure.Benign (.refused (operation.malformed?.getD .disposed)) := by
  unfold malformed?
  split
  · split
    · trivial
    · split <;> trivial
  · trivial

namespace Released

variable (h : Released s)
include h

theorem isDisposed_eq : s.isDisposed = true := by
  simp [isDisposed, h.buffer]

theorem written_eq : s.written = refuse .disposed := by
  simp [written, h.buffer]

theorem seek_eq (i : Nat) : s.seek i = refuse .disposed := by
  rw [seek, h.written_eq, refuse_bind]

theorem checkRange_eq (start stop : Nat) : s.checkRange start stop = refuse .disposed := by
  rw [checkRange, require_neg (by simp [h.isDisposed_eq]), refuse_bind]

theorem range_eq (start stop : Nat) : s.range start stop = refuse .disposed := by
  rw [range, h.checkRange_eq, refuse_bind]

theorem getRange_eq (start count : Nat) :
    s.getRange start count = if count = 0 then refuse (.badArgument .emptyRange)
      else if Word.limit < start + count then refuse (.outOfRange Word.limit 0) else refuse .disposed := by
  by_cases hcount : count = 0
  · rw [getRange, require_neg (not_not_intro hcount), if_pos hcount]
    rfl
  rw [getRange, require_pos hcount, ok_bind, if_neg hcount]
  by_cases hlimit : Word.limit < start + count
  · rw [require_neg (Nat.not_le.mpr hlimit), if_pos hlimit, h.count]
    rfl
  · rw [require_pos (Nat.not_lt.mp hlimit), ok_bind, if_neg hlimit, h.checkRange_eq]
    rfl

theorem capacity_eq : s.capacity = 0 := by
  rw [Store.capacity, h.buffer]
  rfl

/-- There is nothing more to give up. -/
theorem dispose_eq : dispose s = .ok ⟨⟩ s := by
  obtain ⟨buffer, buckets, frameCount, dataEnd, bucketSize⟩ := s
  obtain ⟨rfl, rfl, rfl, rfl⟩ := h
  rfl

theorem iterate_eq (start stop : Nat) (visit : Nat → View UInt8 → σ → σ) (x : σ) :
    s.iterate start stop visit x = .error (.refused .disposed) x := by
  simp only [iterate, Action.bind_apply, h.range_eq, Action.lift_refuse_apply]

theorem onBuffer_eq {α : Type} (act : Action Buffer α) : onBuffer act s = .error (.refused .disposed) s := by
  rw [onBuffer, h.buffer]

theorem append_eq (alloc : Allocator) (payload : Bytes) :
    append alloc payload s = .error (.refused .disposed) s := by
  simp [append, reserve, Action.bind_apply, require, h.isDisposed_eq]

theorem reset_eq (clearBuffer : Bool) : reset clearBuffer s = .error (.refused .disposed) s := by
  rw [reset, Action.bind_apply, h.onBuffer_eq]

theorem clear_eq (alloc : Allocator) (capacity : Option Nat) :
    clear alloc capacity s = .error (.refused .disposed) s := by
  simp only [clear, Action.bind_apply, h.reset_eq]

/-! ## Any request -/

theorem answer_refused {reading : Reading} (hneeds : (Operation.read reading).needsBuffer) :
    reading.answer s = { outcome := refuse ((Operation.read reading).malformed?.getD .disposed) } := by
  cases reading with
  | get i =>
      rw [Reading.answer, Store.get, h.seek_eq]
      rfl
  | getWithPrefix i =>
      rw [Reading.answer, getWithPrefix, h.seek_eq]
      rfl
  | getRange start count =>
      rw [Reading.answer, h.getRange_eq, Operation.malformed?]
      by_cases hcount : count = 0
      · rw [if_pos hcount, if_pos hcount]
        rfl
      by_cases hlimit : Word.limit < start + count
      · rw [if_neg hcount, if_pos hlimit, if_neg hcount, if_pos hlimit]
        rfl
      · rw [if_neg hcount, if_neg hlimit, if_neg hcount, if_neg hlimit]
        rfl
  | iterate start stop =>
      rw [Reading.answer, h.iterate_eq]
      rfl
  | range start stop pulls =>
      rw [Reading.answer, h.range_eq]
      rfl
  | frames pulls =>
      rw [Reading.answer, Store.frames, h.range_eq]
      rfl
  | bytes =>
      rw [Reading.answer, Store.bytes, h.written_eq]
      rfl
  | written =>
      rw [Reading.answer, h.written_eq]
      rfl
  | stats => cases hneeds
  | table => cases hneeds
  | description => cases hneeds

theorem perform_refused {request : Request} (hneeds : request.operation.needsBuffer) :
    request.perform s = ({ outcome := refuse (request.operation.malformed?.getD .disposed) }, s) := by
  rcases request with ⟨alloc, operation⟩
  cases operation with
  | append payload =>
      rw [Request.perform, Operation.perform, h.append_eq]
      rfl
  | appendText text =>
      rw [Request.perform, Operation.perform, appendText, h.append_eq]
      rfl
  | extend payloads =>
      cases payloads with
      | nil => cases hneeds
      | cons payload rest =>
          rw [Request.perform, Operation.perform, extend_cons, h.append_eq]
          rfl
  | reset clearBuffer =>
      rw [Request.perform, Operation.perform, h.reset_eq]
      rfl
  | clear capacity =>
      rw [Request.perform, Operation.perform, h.clear_eq]
      rfl
  | dispose => cases hneeds
  | read reading => rw [Request.perform, Operation.perform, h.answer_refused hneeds]

/-- What does not need the buffer is answered and changes nothing. -/
theorem perform_answered {request : Request} (hneeds : ¬ request.operation.needsBuffer) :
    ∃ value, value.failures = [] ∧ request.perform s = ({ outcome := .ok value }, s) := by
  rcases request with ⟨alloc, operation⟩
  cases operation with
  | append payload => exact absurd rfl hneeds
  | appendText text => exact absurd rfl hneeds
  | extend payloads =>
      cases payloads with
      | nil => exact ⟨_, rfl, rfl⟩
      | cons payload rest => exact absurd rfl hneeds
  | reset clearBuffer => exact absurd rfl hneeds
  | clear capacity => exact absurd rfl hneeds
  | dispose =>
      rw [Request.perform, Operation.perform, h.dispose_eq]
      exact ⟨_, rfl, rfl⟩
  | read reading =>
      cases reading with
      | stats => exact ⟨_, rfl, rfl⟩
      | table => exact ⟨_, rfl, rfl⟩
      | description => exact ⟨_, rfl, rfl⟩
      | _ => exact absurd rfl hneeds

theorem perform_kept (request : Request) : (request.perform s).1.Benign ∧ (request.perform s).2 = s := by
  by_cases hneeds : request.operation.needsBuffer
  · rw [h.perform_refused hneeds]
    exact ⟨benign_refusal (Operation.benign_malformed? request.operation), rfl⟩
  · obtain ⟨value, hvalue, hperform⟩ := h.perform_answered hneeds
    rw [hperform]
    exact ⟨benign_value hvalue, rfl⟩

theorem run_kept (requests : List Request) :
    (∀ answer ∈ (run requests s).1, answer.Benign) ∧ (run requests s).2 = s := by
  induction requests with
  | nil => exact ⟨nofun, rfl⟩
  | cons request rest ih =>
      obtain ⟨hbenign, hkept⟩ := h.perform_kept request
      rw [run]
      simp only [hkept, ih.2, and_true]
      intro answer hanswer
      rcases List.mem_cons.mp hanswer with rfl | hanswer
      · exact hbenign
      · exact ih.1 answer hanswer

end Released

/-- Once a store has been disposed of, no run changes anything about it any more: it is out of use and empty, it turns
down every request that needs the buffer, no visitor is shown anything, and nothing goes wrong. -/
theorem dispose_permanent (s : Store) : ∃ t, dispose s = .ok ⟨⟩ t ∧
    (t.isDisposed = true ∧ t.frameCount = 0 ∧ t.dataEnd = 0 ∧ t.capacity = 0 ∧ t.buckets = []) ∧
    (∀ request : Request, request.operation.needsBuffer →
      request.perform t = ({ outcome := refuse (request.operation.malformed?.getD .disposed) }, t)) ∧
    (∀ (σ : Type) (visit : Nat → View UInt8 → σ → σ) start stop x,
      t.iterate start stop visit x = .error (.refused .disposed) x) ∧
    ∀ requests, (run requests t).2 = t ∧ ∀ answer ∈ (run requests t).1, ∀ fault, .fault fault ∉ answer.failures := by
  have hreleased := released_dispose s
  refine ⟨_, rfl, ⟨hreleased.isDisposed_eq, rfl, rfl, rfl, rfl⟩, fun _ => hreleased.perform_refused,
    fun _ visit start stop => hreleased.iterate_eq start stop visit, fun requests => ?_⟩
  obtain ⟨hbenign, hkept⟩ := hreleased.run_kept requests
  exact ⟨hkept, fun answer hanswer fault hfault => hbenign answer hanswer _ hfault⟩

/-- Asked for a range of no frames, a store that has been disposed of does not say that it has. -/
theorem dispose_permanent_empty_range : ∃ t, dispose (ofParts ⟨[], .fixed⟩ 1 .fresh 0 0) = .ok ⟨⟩ t ∧
    t.getRange 0 0 = refuse (.badArgument .emptyRange) ∧ t.getRange 0 0 ≠ refuse .disposed := by
  refine ⟨_, rfl, rfl, ?_⟩
  intro h
  cases h

end FrameLog.Store
