import FrameLog.Proofs.Buffer
import FrameLog.Proofs.MutView

/-!
# The history of a byte

A buffer is asked for room, cut off, zeroed and written to, each time with an allocator of its own. A byte is what the
last of these that hit its position has put there since the position came into the region, and zero if there was none:
what has been cut off does not come back (`history_exact`).
-/

namespace FrameLog.Buffer

variable {alloc : Allocator} {b : Buffer} {j position : Nat} {data : Bytes} {operation : Operation}
  {requests : List Request}

/-! ## Requests and their runs -/

inductive Operation
  | ensureCapacity (target : Nat)
  | resizeExact (size : Nat)
  | zero
  | write (position : Nat) (data : Bytes)

def Operation.perform (alloc : Allocator) (b : Buffer) : Operation → Buffer
  | .ensureCapacity target => (Buffer.ensureCapacity alloc target).after b
  | .resizeExact size => (Buffer.resizeExact alloc size).after b
  | .zero => Buffer.zero.after b
  | .write position data => (Buffer.write position data).after b

structure Request where
  alloc : Allocator
  operation : Operation

def Request.perform (request : Request) (b : Buffer) : Buffer := request.operation.perform request.alloc b

def run : List Request → Buffer → Buffer
  | [], b => b
  | request :: rest, b => run rest (request.perform b)

/-- A write stays within the region. -/
def Operation.Fits (b : Buffer) : Operation → Prop
  | .write position data => position + data.length ≤ b.capacity
  | _ => True

instance (b : Buffer) : (operation : Operation) → Decidable (operation.Fits b)
  | .write position data => inferInstanceAs (Decidable (position + data.length ≤ b.capacity))
  | .ensureCapacity _ | .resizeExact _ | .zero => inferInstanceAs (Decidable True)

/-- All writes of a run stay within the region as it is then. -/
def InBounds : List Request → Buffer → Prop
  | [], _ => True
  | request :: rest, b => request.operation.Fits b ∧ InBounds rest (request.perform b)

instance decidableInBounds : (requests : List Request) → (b : Buffer) → Decidable (InBounds requests b)
  | [], _ => inferInstanceAs (Decidable True)
  | request :: rest, b => @instDecidableAnd _ _ inferInstance (decidableInBounds rest (request.perform b))

/-! ## What hits a position -/

/-- What an operation puts at position `j`, if it hits it. -/
def Operation.put (j : Nat) : Operation → Option UInt8
  | .ensureCapacity _ | .resizeExact _ => none
  | .zero => some 0
  | .write position data => if position ≤ j then data[j - position]? else none

/-- What the last request to hit position `j` put there. -/
def lastPut (j : Nat) (requests : List Request) : Option UInt8 :=
  (requests.filterMap fun request => request.operation.put j).getLast?

/-- Position `j` is in the region, now and after each of the requests. -/
def Stays (j : Nat) : List Request → Buffer → Prop
  | [], b => j < b.capacity
  | request :: rest, b => j < b.capacity ∧ Stays j rest (request.perform b)

theorem lastPut_cons (request : Request) (rest : List Request) :
    lastPut j (request :: rest) = (lastPut j rest).or (request.operation.put j) := by
  unfold lastPut
  cases hput : request.operation.put j with
  | none => simp [hput]
  | some byte =>
      cases hlast : (rest.filterMap fun request => request.operation.put j).getLast? <;>
        simp [hput, hlast, List.getLast?_cons]

theorem Stays.lt (h : Stays j requests b) : j < b.capacity := by
  cases requests with
  | nil => exact h
  | cons request rest => exact h.1

/-! ## Bytes after one operation -/

/-- Cut off, or filled up with zeros. -/
def resized (b : Buffer) (size : Nat) : Buffer :=
  { b with bytes := b.bytes.take size ++ Bytes.zeros (size - b.capacity) }

def written (b : Buffer) (position : Nat) (data : Bytes) : Buffer :=
  { b with bytes := b.bytes.take position ++ data ++ b.bytes.drop (position + data.length) }

theorem byte_kept (hj : j < b.capacity) : b.bytes[j]? = some (b.bytes.getD j 0) := by
  rw [List.getElem?_eq_getElem hj, List.getD_eq_getElem _ _ hj]

theorem byte_resized {size : Nat} (hj : j < size) : (b.resized size).bytes[j]? = some (b.bytes.getD j 0) := by
  rw [resized]
  by_cases hold : j < b.capacity
  · have hfront : j < (b.bytes.take size).length := by
      rw [List.length_take]
      exact Nat.lt_min.mpr ⟨hj, hold⟩
    rw [List.getElem?_append_left hfront, List.getElem?_take_of_lt hj]
    exact byte_kept hold
  · have hbehind := Nat.not_lt.mp hold
    rw [List.take_of_length_le (Nat.le_trans hbehind (Nat.le_of_lt hj)), List.getElem?_append_right hbehind,
      List.getD_eq_default _ _ hbehind, Bytes.zeros, List.getElem?_replicate]
    exact if_pos (Nat.sub_lt_sub_right hbehind hj)

theorem resized_capacity (b : Buffer) : b.resized b.capacity = b := by
  rw [resized, capacity, List.take_length, Nat.sub_self, Bytes.zeros, List.replicate_zero, List.append_nil]

theorem capacity_written (hfits : position + data.length ≤ b.capacity) :
    (b.written position data).capacity = b.capacity := by
  simp only [written, capacity, List.length_append, List.length_take, List.length_drop] at hfits ⊢
  omega

theorem byte_written (hfits : position + data.length ≤ b.capacity) (hj : j < b.capacity) :
    (b.written position data).bytes[j]? =
      some (((Operation.write position data).put j).getD (b.bytes.getD j 0)) := by
  have hplace : position ≤ b.bytes.length := Nat.le_trans (Nat.le_add_right ..) hfits
  -- what has been written is what a copy to a view of the place leaves
  refine (MutView.getElem?_overwrite (w := ⟨b.bytes, position, data.length⟩) hplace data j).trans ?_
  rw [Operation.put]
  by_cases hfrom : position ≤ j
  · by_cases hwithin : j < position + data.length
    · have hdata : j - position < data.length := by omega
      rw [if_pos ⟨hfrom, hwithin⟩, if_pos hfrom, List.getElem?_eq_getElem hdata, Option.getD_some]
    · have hbehind : data.length ≤ j - position := by omega
      rw [if_neg fun hin => hwithin hin.2, if_pos hfrom, List.getElem?_eq_none hbehind, Option.getD_none]
      exact byte_kept hj
  · rw [if_neg fun hin => hfrom hin.1, if_neg hfrom, Option.getD_none]
    exact byte_kept hj

/-- What an operation does: one that hits nothing gives the region another size, or the one that it has. -/
theorem Operation.perform_cases (alloc : Allocator) (hfits : operation.Fits b) :
    ((∀ j, operation.put j = none) ∧ ∃ size, operation.perform alloc b = b.resized size) ∨
    (operation = .zero ∧ operation.perform alloc b = { b with bytes := Bytes.zeros b.capacity }) ∨
    ∃ position data, operation = .write position data ∧ operation.perform alloc b = b.written position data := by
  cases operation with
  | ensureCapacity target =>
      refine .inl ⟨fun _ => rfl, ?_⟩
      rw [perform, Action.after, ensureCapacity_eq]
      cases hroom : roomFor alloc b.expansion b.capacity target with
      | error r => exact ⟨b.capacity, b.resized_capacity.symm⟩
      | ok size =>
          have hwhole : b.bytes.take size = b.bytes := List.take_of_length_le (roomFor_eq_ok hroom).2.1
          exact ⟨size, by rw [resized, hwhole]⟩
  | resizeExact size =>
      refine .inl ⟨fun _ => rfl, ?_⟩
      rw [perform, Action.after, resizeExact_eq]
      by_cases hgranted : size ≤ maxAllocation ∧ (size ≤ b.capacity ∨ alloc size)
      · rw [if_pos hgranted]
        exact ⟨size, rfl⟩
      · rw [if_neg hgranted]
        exact ⟨b.capacity, b.resized_capacity.symm⟩
  | zero => exact .inr (.inl ⟨rfl, rfl⟩)
  | write position data => exact .inr (.inr ⟨position, data, rfl, Action.after_ok (write_apply hfits)⟩)

/-- After an operation a byte is what it put there, or else what was there before; where there was no byte, it is zero. -/
theorem byte_perform (hfits : operation.Fits b) (hj : j < (operation.perform alloc b).capacity) :
    (operation.perform alloc b).bytes[j]? = some ((operation.put j).getD (b.bytes.getD j 0)) := by
  rcases operation.perform_cases alloc hfits with ⟨hput, size, hresized⟩ | ⟨rfl, hzeros⟩ | ⟨position, data, rfl, hwritten⟩
  · rw [hresized, resized, capacity_resized] at hj
    rw [hresized, hput, Option.getD_none]
    exact byte_resized hj
  · rw [hzeros, capacity_zeros] at hj
    rw [hzeros, Bytes.zeros, List.getElem?_replicate, if_pos hj]
    rfl
  · rw [hwritten, capacity_written hfits] at hj
    rw [hwritten]
    exact byte_written hfits hj

/-- Only an operation that hits nothing brings a position into the region. -/
theorem put_of_joins (hfits : operation.Fits b) (hout : b.capacity ≤ j)
    (hin : j < (operation.perform alloc b).capacity) : operation.put j = none := by
  rcases operation.perform_cases alloc hfits with ⟨hput, -⟩ | ⟨rfl, hzeros⟩ | ⟨position, data, rfl, hwritten⟩
  · exact hput j
  · rw [hzeros, capacity_zeros] at hin
    exact absurd hin (Nat.not_lt.mpr hout)
  · rw [hwritten, capacity_written hfits] at hin
    exact absurd hin (Nat.not_lt.mpr hout)

theorem expansion_perform (hfits : operation.Fits b) : (operation.perform alloc b).expansion = b.expansion := by
  rcases operation.perform_cases alloc hfits with ⟨-, size, hresized⟩ | ⟨-, hzeros⟩ | ⟨position, data, -, hwritten⟩
  · rw [hresized, resized]
  · rw [hzeros]
  · rw [hwritten, written]

/-! ## Runs -/

theorem expansion_run (hfits : InBounds requests b) : (run requests b).expansion = b.expansion := by
  induction requests generalizing b with
  | nil => rfl
  | cons request rest ih => exact (ih hfits.2).trans (expansion_perform hfits.1)

/-- Where a position stays in the region, its byte is what was put there last, or else the one that was there at first. -/
theorem byte_run (hfits : InBounds requests b) (hstays : Stays j requests b) :
    (run requests b).bytes[j]? = some ((lastPut j requests).getD (b.bytes.getD j 0)) := by
  induction requests generalizing b with
  | nil => exact byte_kept hstays
  | cons request rest ih =>
      have hfirst := byte_perform hfits.1 hstays.2.lt
      rw [run, ih hfits.2 hstays.2, List.getD_eq_getElem?_getD, Request.perform, hfirst, lastPut_cons, Option.getD_some]
      cases lastPut j rest <;> rfl

theorem InBounds.of_append {before : List Request} {request : Request} {since : List Request}
    (hfits : InBounds (before ++ request :: since) b) :
    request.operation.Fits (run before b) ∧ InBounds since (request.perform (run before b)) := by
  induction before generalizing b with
  | nil => exact hfits
  | cons first rest ih => exact ih hfits.2

theorem run_append (before : List Request) (request : Request) (since : List Request) (b : Buffer) :
    run (before ++ request :: since) b = run since (request.perform (run before b)) := by
  induction before generalizing b with
  | nil => rfl
  | cons first rest ih => exact ih (first.perform b)

/-- A position that is in the region at the end has been there all the time, or has come in by some request for good. -/
theorem stays_or_joins (hj : j < (run requests b).capacity) : Stays j requests b ∨
    ∃ before request since, requests = before ++ request :: since ∧ (run before b).capacity ≤ j ∧
      Stays j since (request.perform (run before b)) := by
  induction requests generalizing b with
  | nil => exact .inl hj
  | cons first rest ih =>
      rcases ih hj with hstays | ⟨before, request, since, rfl, hout, hstays⟩
      · by_cases hin : j < b.capacity
        · exact .inl ⟨hin, hstays⟩
        · exact .inr ⟨[], first, rest, rfl, Nat.not_lt.mp hin, hstays⟩
      · exact .inr ⟨first :: before, request, since, rfl, hout, hstays⟩

/-- Where a position has come in by a request, its byte is what was put there last since then, or else zero. -/
theorem byte_joined {before : List Request} {request : Request} {since : List Request}
    (hfits : InBounds (before ++ request :: since) b) (hout : (run before b).capacity ≤ j)
    (hstays : Stays j since (request.perform (run before b))) :
    (run (before ++ request :: since) b).bytes[j]? = some ((lastPut j since).getD 0) := by
  obtain ⟨hfitsRequest, hfitsSince⟩ := hfits.of_append
  have hzero : (run before b).bytes.getD j 0 = 0 := List.getD_eq_default _ _ hout
  have hjoined : (request.perform (run before b)).bytes[j]? = some 0 := by
    rw [Request.perform, byte_perform hfitsRequest hstays.lt, put_of_joins hfitsRequest hout hstays.lt, hzero]
    rfl
  rw [run_append, byte_run hfitsSince hstays, List.getD_eq_getElem?_getD, hjoined, Option.getD_some]

/-! ## Where histories begin -/

inductive Origin
  | zeros (capacity : Nat) (expansion : Expansion)
  | adopted (bytes : Bytes) (expansion : Expansion)

namespace Origin

def build (alloc : Allocator) : Origin → Outcome Buffer
  | zeros capacity expansion => withCapacity alloc capacity expansion
  | adopted bytes expansion => ofBytes bytes expansion

def expansion : Origin → Expansion
  | zeros _ expansion | adopted _ expansion => expansion

/-- The byte that is at position `j` at first. -/
def byte (j : Nat) : Origin → UInt8
  | zeros .. => 0
  | adopted bytes _ => bytes.getD j 0

theorem build_eq {origin : Origin} (h : origin.build alloc = .ok b) :
    b.expansion = origin.expansion ∧ ∀ j, b.bytes.getD j 0 = origin.byte j := by
  cases origin with
  | zeros capacity expansion =>
      obtain ⟨_, -, h⟩ := bind_eq_ok.mp h
      obtain ⟨_, -, h⟩ := bind_eq_ok.mp h
      cases h
      refine ⟨rfl, fun j => ?_⟩
      simp [Bytes.zeros, byte]
  | adopted bytes expansion =>
      obtain ⟨_, -, h⟩ := bind_eq_ok.mp h
      cases h
      exact ⟨rfl, fun j => rfl⟩

end Origin

/-! ## Room and sizes -/

section
variable {target size : Nat} {c : Buffer} {e : Failure}

/-- Asking for room that there is changes nothing; otherwise there is room in the end, or nothing has changed. -/
theorem ensureCapacity_cases (alloc : Allocator) (target : Nat) (b : Buffer) :
    (target ≤ b.capacity ∧ ensureCapacity alloc target b = .ok false b) ∨
    (b.capacity < target ∧ ∃ c, ensureCapacity alloc target b = .ok true c ∧ target ≤ c.capacity) ∨
    (b.capacity < target ∧ ∃ e, ensureCapacity alloc target b = .error e b) := by
  by_cases henough : target ≤ b.capacity
  · exact .inl ⟨henough, by simp [ensureCapacity, Action.bind_apply, henough]⟩
  · have hlt := Nat.not_le.mp henough
    cases hroom : roomFor alloc b.expansion b.capacity target with
    | ok size =>
        obtain ⟨grew, c, hgrown, hc, -⟩ := ensureCapacity_grown hroom
        obtain rfl : grew = true := by
          rw [ensureCapacity_eq, hroom, decide_eq_true hlt] at hgrown
          cases hgrown
          rfl
        exact .inr (.inl ⟨hlt, c, hgrown, hc.room⟩)
    | error r => exact .inr (.inr ⟨hlt, _, by rw [ensureCapacity_eq, hroom]⟩)

theorem ensureCapacity_false : ensureCapacity alloc target b = .ok false c ↔ target ≤ b.capacity ∧ c = b := by
  rcases ensureCapacity_cases alloc target b with ⟨hle, hsame⟩ | ⟨hlt, c', hgrown, -⟩ | ⟨hlt, e, hfailed⟩
  · simp [hsame, hle, eq_comm]
  · simp [hgrown, Nat.not_le.mpr hlt]
  · simp [hfailed, Nat.not_le.mpr hlt]

theorem ensureCapacity_true : (∃ c, ensureCapacity alloc target b = .ok true c) ↔
    b.capacity < ((ensureCapacity alloc target).after b).capacity ∧
      target ≤ ((ensureCapacity alloc target).after b).capacity := by
  rcases ensureCapacity_cases alloc target b with ⟨-, hsame⟩ | ⟨hlt, c', hgrown, hroom⟩ | ⟨-, e, hfailed⟩
  · simp [hsame, Action.after_ok hsame]
  · simp [hgrown, Action.after_ok hgrown, hroom, Nat.lt_of_lt_of_le hlt hroom]
  · simp [hfailed, Action.after_error hfailed]

theorem ensureCapacity_error (h : ensureCapacity alloc target b = .error e c) : c = b := by
  rcases ensureCapacity_cases alloc target b with ⟨-, hsame⟩ | ⟨-, c', hgrown, -⟩ | ⟨-, e', hfailed⟩
  · cases hsame.symm.trans h
  · cases hgrown.symm.trans h
  · cases hfailed.symm.trans h
    rfl

theorem resizeExact_ok (h : resizeExact alloc size b = .ok ⟨⟩ c) : c.capacity = size := by
  rw [resizeExact_eq] at h
  split at h
  · cases h
    exact capacity_resized b size
  · cases h

theorem resizeExact_error (h : resizeExact alloc size b = .error e c) : c = b := by
  rw [resizeExact_eq] at h
  split at h
  · cases h
  · cases h
    rfl

end

/-- From a buffer that has been made in either way, through whatever is asked of it with allocators that may turn it
down: a byte is what the last request to hit its position has put there since the position came into the region, or else
zero, or the byte that was adopted if it has been there from the start. Asking for room changes nothing if there is
enough, and else leads to enough or to nothing at all; a size that is granted is exact; the policy stays. -/
theorem history_exact :
    (∀ (origin : Origin) alloc first requests, origin.build alloc = .ok first → InBounds requests first →
      (run requests first).expansion = origin.expansion ∧
      ∀ j < (run requests first).capacity,
        (Stays j requests first ∧
          (run requests first).bytes[j]? = some ((lastPut j requests).getD (origin.byte j))) ∨
        ∃ before request since, requests = before ++ request :: since ∧ (run before first).capacity ≤ j ∧
          Stays j since (request.perform (run before first)) ∧
          (run requests first).bytes[j]? = some ((lastPut j since).getD 0)) ∧
    (∀ alloc target b c, ensureCapacity alloc target b = .ok false c ↔ target ≤ b.capacity ∧ c = b) ∧
    (∀ alloc target b, (∃ c, ensureCapacity alloc target b = .ok true c) ↔
      b.capacity < ((ensureCapacity alloc target).after b).capacity ∧
        target ≤ ((ensureCapacity alloc target).after b).capacity) ∧
    (∀ alloc target b e c, ensureCapacity alloc target b = .error e c → c = b) ∧
    (∀ alloc size b c, resizeExact alloc size b = .ok ⟨⟩ c → c.capacity = size) ∧
    ∀ alloc size b e c, resizeExact alloc size b = .error e c → c = b := by
  refine ⟨fun origin alloc first requests hbuild hfits => ?_, fun _ _ _ _ => ensureCapacity_false,
    fun _ _ _ => ensureCapacity_true, fun _ _ _ _ _ => ensureCapacity_error, fun _ _ _ _ => resizeExact_ok,
    fun _ _ _ _ _ => resizeExact_error⟩
  obtain ⟨hexpansion, hbyte⟩ := Origin.build_eq hbuild
  refine ⟨(expansion_run hfits).trans hexpansion, fun j hj => ?_⟩
  rcases stays_or_joins hj with hstays | ⟨before, request, since, rfl, hout, hstays⟩
  · exact .inl ⟨hstays, hbyte j ▸ byte_run hfits hstays⟩
  · exact .inr ⟨before, request, since, rfl, hout, hstays, byte_joined hfits hout hstays⟩

/-- Two bytes are written over, cut off and asked for again, which is refused first; the one that has not been written
since is zero. -/
theorem history_exact_cut_off :
    let first : Buffer := ⟨[1, 2, 3, 4], .fixed⟩
    let granted : Allocator := fun _ => true
    let requests : List Request := [⟨granted, .write 1 [7, 8, 9]⟩, ⟨granted, .resizeExact 2⟩,
      ⟨granted, .ensureCapacity 3⟩, ⟨granted, .resizeExact 4⟩, ⟨granted, .write 3 [5]⟩]
    (Origin.adopted [1, 2, 3, 4] .fixed).build granted = .ok first ∧ InBounds requests first ∧
      (run requests first).bytes = [1, 7, 0, 5] ∧ (run requests first).expansion = .fixed ∧
      ∀ j < 4,
        (Stays j requests first ∧
          (run requests first).bytes[j]? = some ((lastPut j requests).getD ([1, 2, 3, 4].getD j 0))) ∨
        ∃ before request since, requests = before ++ request :: since ∧ (run before first).capacity ≤ j ∧
          Stays j since (request.perform (run before first)) ∧
          (run requests first).bytes[j]? = some ((lastPut j since).getD 0) := by
  intro first granted requests
  have hbuild : (Origin.adopted [1, 2, 3, 4] .fixed).build granted = .ok first := by decide +kernel
  have hbytes : (run requests first).bytes = [1, 7, 0, 5] := by decide +kernel
  have hfits : InBounds requests first := by decide +kernel
  obtain ⟨hexpansion, hbyte⟩ := history_exact.1 _ granted first requests hbuild hfits
  refine ⟨hbuild, hfits, hbytes, hexpansion, fun j hj => hbyte j ?_⟩
  rwa [capacity, hbytes]

end FrameLog.Buffer
