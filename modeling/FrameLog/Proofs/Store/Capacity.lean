import FrameLog.Proofs.Store.Failing
import FrameLog.Proofs.Store.Twins

/-!
# How far a store grows

The capacity goes up a chain of steps, and every growth stops at the first of them that is enough. So it only matters
how long the data has been at most, not how it came to be so long (`capacity_of_peak`).
-/

namespace FrameLog.Store

open Log Buffer

variable {s t : Store} {b : Buffer} {log : Log} {alloc : Allocator} {payloads : List Bytes}

/-- Keeps the store in use and does not ask for a size of the buffer. -/
def Operation.keepsRoom : Operation → Bool
  | .clear (some _) | .dispose => false
  | _ => true

def Operation.appends : Operation → Bool
  | .append _ | .appendText _ | .extend _ => true
  | _ => false

/-- All payloads that a run has to append, in order. -/
def payloadsOf (requests : List Request) : List Bytes := requests.flatMap fun request => request.operation.payloads

/-- How long the data is at most, from the beginning of a run to its end. -/
def peak : List Request → Store → Nat
  | [], s => s.dataEnd
  | request :: rest, s => max s.dataEnd (peak rest (request.perform s).2)

theorem dataEnd_le_peak (requests : List Request) (s : Store) : s.dataEnd ≤ peak requests s := by
  cases requests with
  | nil => exact Nat.le_refl _
  | cons request rest => exact Nat.le_max_left ..

/-- The store holds the log, in a buffer that has grown from `b` as far as the log needs. -/
def HoldsGrown (b : Buffer) (log : Log) (t : Store) : Prop :=
  ∃ c, Holds t c log ∧ c.expansion = b.expansion ∧ c.capacity = stretched b.expansion b.capacity t.dataEnd

theorem Holds.dataEnd_le (h : Holds s b log) : s.dataEnd ≤ b.capacity := h.dataEnd ▸ h.length_le

theorem Holds.grown (h : Holds s b log) : HoldsGrown b log s :=
  ⟨b, h, rfl, (stretched_of_le b.expansion h.dataEnd_le).symm⟩

/-- Growing on from a store that has grown is growing so far at once. -/
theorem HoldsGrown.trans {more : Log} (h : HoldsGrown b log s)
    (hnext : ∀ c, Holds s c log → HoldsGrown c (log ++ more) t) : HoldsGrown b (log ++ more) t := by
  obtain ⟨c, hholds, hexpansion, hcapacity⟩ := h
  obtain ⟨d, hlast, hexpansion', hcapacity'⟩ := hnext c hholds
  have hmore : s.dataEnd ≤ t.dataEnd := by
    rw [hlast.dataEnd, hholds.dataEnd, bytes_append, List.length_append]
    exact Nat.le_add_right ..
  rw [hexpansion, hcapacity, stretched_stretched, Nat.max_eq_right hmore] at hcapacity'
  exact ⟨d, hlast, hexpansion'.trans hexpansion, hcapacity'⟩

/-! ## Appending -/

theorem Holds.append_grown_once (h : Holds s b log) {payload : Bytes} {bucket : Bucket}
    (happend : append alloc payload s = .ok bucket t) : HoldsGrown b (log ++ [payload]) t := by
  cases hadmission : admission alloc b.expansion s.bucketSize b.capacity log.sizes payload.length with
  | error r => cases happend.symm.trans (h.append_turnedDown hadmission)
  | ok size =>
      obtain ⟨t', c, bucket', happend', hholds, -, hsize, hexpansion, -⟩ := h.append_admitted hadmission
      cases happend.symm.trans happend'
      have hend : t.dataEnd = log.bytes.length + (Prefix.size + payload.length) := by
        simp [hholds.dataEnd]
      refine ⟨c, hholds, hexpansion, ?_⟩
      rw [hsize, hend]
      exact roomFor_eq_stretched (roomFor_of_admission hadmission)

/-- What goes in one after another makes the buffer grow as far as all of it together would. -/
theorem Takes.grown (htakes : Takes alloc s payloads t) (h : Holds s b log) : HoldsGrown b (log ++ payloads) t := by
  induction htakes generalizing b log with
  | nil s =>
      rw [List.append_nil]
      exact h.grown
  | @cons s t u payload rest bucket first _ ih =>
      rw [List.append_cons]
      exact (h.append_grown_once first).trans fun c hholds => ih hholds

/-- An operation that appends puts in a beginning of its payloads, and all of them if it succeeds. -/
theorem Tracks.perform_takes (h : Tracks log s) (request : Request) (happends : request.operation.appends) :
    ∃ taken, Takes request.alloc s taken (request.perform s).2 ∧
      ((request.perform s).1.succeeds → taken = request.operation.payloads) := by
  have hone (alloc : Allocator) (payload : Bytes) :
      ∃ taken, Takes alloc s taken (settle .bucket (append alloc payload s)).2 ∧
        ((settle .bucket (append alloc payload s)).1.succeeds → taken = [payload]) := by
    cases happend : append alloc payload s with
    | ok bucket t => exact ⟨[payload], .cons happend (.nil t), fun _ => rfl⟩
    | error e t =>
        obtain rfl := h.append_error happend
        exact ⟨[], .nil _, fun hdone => by cases hdone⟩
  rcases request with ⟨alloc, operation⟩
  cases operation with
  | append payload => exact hone alloc payload
  | appendText text => exact hone alloc (Utf8.encode text)
  | extend payloads =>
      simp only [Request.perform, Operation.perform]
      cases hextend : extend alloc payloads s with
      | ok n t => exact ⟨payloads, (extend_ok hextend).2, fun _ => rfl⟩
      | error e t =>
          obtain ⟨taken, payload, rest, t', -, htakes, hlast⟩ := extend_error hextend
          obtain rfl := (h.takes htakes).append_error hlast
          exact ⟨taken, htakes, fun hdone => by cases hdone⟩
  | reset clearBuffer => cases happends
  | clear capacity => cases happends
  | dispose => cases happends
  | read reading => cases happends

/-! ## Runs -/

theorem Holds.perform_grown (h : Holds s b log) {request : Request} (hkeeps : request.operation.keepsRoom) :
    ∃ next, HoldsGrown b next (request.perform s).2 := by
  have htracks : Tracks log s := .inr ⟨b, h⟩
  have hempty {c : Buffer} (hexpansion : c.expansion = b.expansion) (hcapacity : c.capacity = b.capacity) :
      HoldsGrown b [] (ofParts c s.bucketSize .fresh 0 0) :=
    ⟨c, holds_ofParts h.bucketSize (hcapacity ▸ h.addressable), hexpansion,
      hcapacity.trans (stretched_of_le b.expansion (Nat.zero_le _)).symm⟩
  by_cases happends : request.operation.appends
  · obtain ⟨taken, htakes, -⟩ := htracks.perform_takes request happends
    exact ⟨_, htakes.grown h⟩
  rcases request with ⟨alloc, operation⟩
  cases operation with
  | append payload => exact absurd rfl happends
  | appendText text => exact absurd rfl happends
  | extend payloads => exact absurd rfl happends
  | reset clearBuffer =>
      simp only [Request.perform, Operation.perform, h.reset_apply]
      exact ⟨[], hempty (expansion_zeroedIf ..) (capacity_zeroedIf ..)⟩
  | clear capacity =>
      cases capacity with
      | some size => cases hkeeps
      | none =>
          simp only [Request.perform, Operation.perform, h.clear_none]
          exact ⟨[], hempty rfl rfl⟩
  | dispose => cases hkeeps
  | read reading => exact ⟨log, h.grown⟩

theorem Holds.run_stretched (h : Holds s b log) {requests : List Request}
    (hkeeps : ∀ request ∈ requests, request.operation.keepsRoom) :
    ∃ c last, Holds (run requests s).2 c last ∧ c.capacity = stretched b.expansion b.capacity (peak requests s) := by
  induction requests generalizing s b log with
  | nil =>
      obtain ⟨c, hholds, -, hcapacity⟩ := h.grown
      exact ⟨c, log, hholds, hcapacity⟩
  | cons request rest ih =>
      obtain ⟨next, c, hholds, hexpansion, hcapacity⟩ := h.perform_grown (hkeeps request (List.mem_cons_self ..))
      obtain ⟨d, last, hlast, hpeak⟩ := ih hholds fun request hmem => hkeeps request (List.mem_cons_of_mem _ hmem)
      refine ⟨d, last, hlast, ?_⟩
      -- Neither what the data was at first nor what it was after one request adds to the peak of the rest.
      rw [hpeak, hexpansion, hcapacity, stretched_stretched, Nat.max_eq_right (dataEnd_le_peak ..), peak,
        ← stretched_stretched _ _ s.dataEnd, stretched_of_le _ h.dataEnd_le]

/-- Where everything goes in, the log grows by all the payloads and the buffer as far as it then needs. -/
theorem Holds.run_fills (h : Holds s b log) {requests : List Request}
    (happends : ∀ request ∈ requests, request.operation.appends)
    (hall : ∀ answer ∈ (run requests s).1, answer.succeeds) :
    HoldsGrown b (log ++ payloadsOf requests) (run requests s).2 := by
  induction requests generalizing s b log with
  | nil =>
      rw [payloadsOf, List.flatMap_nil, List.append_nil]
      exact h.grown
  | cons request rest ih =>
      have htracks : Tracks log s := .inr ⟨b, h⟩
      obtain ⟨taken, htakes, htaken⟩ := htracks.perform_takes request (happends request (List.mem_cons_self ..))
      obtain rfl := htaken (hall _ (List.mem_cons_self ..))
      rw [payloadsOf, List.flatMap_cons, ← List.append_assoc]
      exact (htakes.grown h).trans fun c hholds => ih hholds
        (fun request hmem => happends request (List.mem_cons_of_mem _ hmem))
        fun answer hmem => hall answer (List.mem_cons_of_mem _ hmem)

/-- In every store in use that a run can lead to, whatever follows that neither asks for a size of the buffer nor
disposes of the store: in the end the capacity is the first one on the way up from the present one that holds the data
at its longest, or the present one if growing is not allowed. So two runs that put the same payloads into a store, cut
up and in order as they like, leave it with the same capacity. -/
theorem capacity_of_peak :
    (∀ s b, Reachable s → s.buffer = some b → ∀ requests, (∀ request ∈ requests, request.operation.keepsRoom) →
      (b.expansion.allowed = true →
        nextCapacity s.capacity (peak requests s) b.expansion.factor = .ok (run requests s).2.capacity) ∧
      (b.expansion.allowed = false → (run requests s).2.capacity = s.capacity)) ∧
    ∀ s, Reachable s → s.isDisposed = false → ∀ requests requests',
      (∀ request ∈ requests, request.operation.appends) → (∀ request ∈ requests', request.operation.appends) →
      (∀ answer ∈ (run requests s).1, answer.succeeds) → (∀ answer ∈ (run requests' s).1, answer.succeeds) →
      (payloadsOf requests).Perm (payloadsOf requests') →
        (run requests s).2.capacity = (run requests' s).2.capacity := by
  constructor
  · intro s b hreachable hbuffer requests hkeeps
    obtain ⟨log, htracks⟩ := hreachable.tracks
    obtain ⟨b', hholds⟩ := htracks.holds (by rw [isDisposed, hbuffer, Option.isNone_some])
    cases hholds.live.symm.trans hbuffer
    obtain ⟨c, last, hlast, hcapacity⟩ := hholds.run_stretched hkeeps
    rw [hlast.capacity_eq, hholds.capacity_eq, hcapacity]
    constructor
    · intro hallowed
      have hroom := hlast.addressable
      rw [hcapacity, stretched, if_pos hallowed] at hroom
      have hpeak := Nat.le_trans (le_growTo b.expansion.factor (peak requests s) b.capacity) hroom
      rw [nextCapacity, require_pos hpeak, stretched, if_pos hallowed]
      rfl
    · intro hfixed
      rw [stretched, hfixed]
      rfl
  · intro s hreachable hlive requests requests' happends happends' hall hall' hperm
    obtain ⟨log, htracks⟩ := hreachable.tracks
    obtain ⟨b, hholds⟩ := htracks.holds hlive
    obtain ⟨c, hlast, -, hcapacity⟩ := hholds.run_fills happends hall
    obtain ⟨c', hlast', -, hcapacity'⟩ := hholds.run_fills happends' hall'
    rw [hlast.capacity_eq, hlast'.capacity_eq, hcapacity, hcapacity', hlast.dataEnd, hlast'.dataEnd,
      length_bytes_perm (hperm.append_left log)]

/-- From eight bytes on, fifteen bytes of data need eighteen, also where growing was turned down before and the store
was emptied in between; and two orders of three payloads come to the same. -/
theorem capacity_of_peak_three_payloads :
    let first := ofParts ⟨Bytes.zeros 8, .growable Expansion.defaultFactor⟩ 2 .fresh 0 0
    let wavering : List Request := [⟨fun _ => true, .append [7]⟩, ⟨fun _ => false, .append [8, 9]⟩,
      ⟨fun _ => true, .reset true⟩, ⟨fun _ => true, .extend [[7], [8, 9], []]⟩, ⟨fun _ => true, .clear none⟩]
    let requests : List Request := [⟨fun _ => true, .append [7]⟩, ⟨fun _ => true, .extend [[8, 9], []]⟩]
    let requests' : List Request := [⟨fun _ => true, .extend [[], [8, 9]]⟩, ⟨fun _ => true, .append [7]⟩]
    nextCapacity 8 15 Expansion.defaultFactor = .ok (run wavering first).2.capacity ∧
      (run requests first).2.capacity = (run requests' first).2.capacity := by
  intro first wavering requests requests'
  have hbuild : Origin.build (fun _ => false)
      (.ofBuffer ⟨Bytes.zeros 8, .growable Expansion.defaultFactor⟩ 2 (by decide)) = .ok first := rfl
  have hreachable : Reachable first := ⟨_, _, first, [], hbuild, rfl⟩
  have hpeak : peak wavering first = 15 := by decide +kernel
  have hgrows := (capacity_of_peak.1 first _ hreachable rfl wavering (by decide)).1 rfl
  rw [hpeak] at hgrows
  exact ⟨hgrows, capacity_of_peak.2 first hreachable rfl requests requests' (by decide) (by decide)
    (by decide +kernel) (by decide +kernel) (by decide)⟩

end FrameLog.Store
