import FrameLog.Proofs.Store.Admission

/-!
# Two stores side by side

Twins hold the same log in buffers of the same capacity; their buckets may be of different sizes, and what lies behind
their data may differ. The same requests meet the same answers in both, apart from what is said about buckets, and leave
twins (`Twins.run`), unless one of them turns a payload down for the length of its bucket.
-/

namespace FrameLog.Store

open Log

variable {α : Type} {s t : Store} {b c : Buffer} {log : Log} {alloc : Allocator} {payload : Bytes} {p q : Nat}

/-! ## Answers apart from the buckets -/

def Value.withoutBuckets : Value → Value
  | .bucket _ | .table _ => .done
  | .stats shown => .stats { shown with buckets := 0, bucketSize := 0 }
  | .description (.record name fields) =>
    .description (.record name (fields.filter fun field => field.1 ∉ ["buckets", "bucket_size"]))
  | value => value

def Answer.withoutBuckets (answer : Answer) : Answer :=
  { answer with outcome := answer.outcome.map Value.withoutBuckets }

/-- The answers are the same apart from the buckets; where these are of one size, they are the same. -/
def Answer.Matches (p q : Nat) (x y : Answer) : Prop := x.withoutBuckets = y.withoutBuckets ∧ (p = q → x = y)

theorem Answer.Matches.of_eq {x y : Answer} (h : x = y) : Matches p q x y := ⟨congrArg withoutBuckets h, fun _ => h⟩

theorem Answer.Matches.value {v w : Value} (h : v.withoutBuckets = w.withoutBuckets) (heq : p = q → v = w) :
    Matches p q { outcome := .ok v } { outcome := .ok w } := by
  refine ⟨?_, fun hsize => by rw [heq hsize]⟩
  simp only [withoutBuckets, Except.map, h]

/-! ## Payloads that are turned down for their bucket -/

def Operation.payloads : Operation → List Bytes
  | .append payload => [payload]
  | .appendText text => [Utf8.encode text]
  | .extend payloads => payloads
  | _ => []

/-- The payload could be counted by a prefix, but its bucket would become too long. -/
def outgrows (alloc : Allocator) (payload : Bytes) (s : Store) : Bool :=
  match append alloc payload s with
  | .error (.refused (.frameTooLarge _)) _ => payload.length ≤ Prefix.maxPayload
  | _ => false

/-- No payload that is tried, up to the first that is turned down, is so for the length of its bucket. -/
def staysWithin (alloc : Allocator) : List Bytes → Store → Bool
  | [], _ => true
  | payload :: rest, s =>
    !outgrows alloc payload s &&
      match append alloc payload s with
      | .ok _ t => staysWithin alloc rest t
      | .error _ _ => true

def runsWithin : List Request → Store → Bool
  | [], _ => true
  | request :: rest, s =>
    staysWithin request.alloc request.operation.payloads s && runsWithin rest (request.perform s).2

theorem outgrows_of_staysWithin {rest : List Bytes} (h : staysWithin alloc (payload :: rest) s) :
    outgrows alloc payload s = false := by
  simp only [staysWithin, Bool.and_eq_true, Bool.not_eq_true'] at h
  exact h.1

theorem Holds.tooLarge_eq (h : Holds s b log) (hwithin : outgrows alloc payload s = false) :
    tooLarge s.bucketSize log payload.length =
      if Prefix.maxPayload < payload.length then some payload.length else none := by
  by_cases hpayload : Prefix.maxPayload < payload.length
  · rw [tooLarge, if_pos hpayload, if_pos hpayload]
  rw [if_neg hpayload]
  -- A prefix can count it, so that only its bucket could keep it out.
  cases hlarge : tooLarge s.bucketSize log payload.length with
  | none => rfl
  | some size =>
      have happend : append alloc payload s = _ := h.append_tooLarge hlarge
      rw [outgrows, happend] at hwithin
      exact absurd (Nat.not_lt.mp hpayload) (of_decide_eq_false hwithin)

/-! ## Twins -/

/-- Two stores with buckets of sizes `p` and `q` hold the same, with the same room for more, or are both disposed of. -/
inductive Twins (p q : Nat) (s t : Store) : Prop
  | released (left : Released s) (right : Released t) (hp : s.bucketSize = p) (hq : t.bucketSize = q)
  | holding {b c : Buffer} {log : Log} (left : Holds s b log) (right : Holds t c log)
      (capacity : b.capacity = c.capacity) (expansion : b.expansion = c.expansion)
      (hp : s.bucketSize = p) (hq : t.bucketSize = q)

namespace Twins

theorem fresh (hp : 0 < p) (hq : 0 < q) (hle : b.capacity ≤ maxAllocation) (hcapacity : b.capacity = c.capacity)
    (hexpansion : b.expansion = c.expansion) : Twins p q (ofParts b p .fresh 0 0) (ofParts c q .fresh 0 0) :=
  .holding (holds_ofParts hp hle) (holds_ofParts hq (hcapacity ▸ hle)) hcapacity hexpansion rfl rfl

variable (h : Twins p q s t)
include h

theorem frameCount_eq : s.frameCount = t.frameCount := by
  cases h with
  | released left right => rw [left.count, right.count]
  | holding left right => rw [left.count, right.count]

theorem dataEnd_eq : s.dataEnd = t.dataEnd := by
  cases h with
  | released left right => rw [left.dataEnd, right.dataEnd]
  | holding left right => rw [left.dataEnd, right.dataEnd]

theorem capacity_eq : s.capacity = t.capacity := by
  cases h with
  | released left right => rw [Store.capacity, Store.capacity, left.buffer, right.buffer]
  | holding left right hcapacity => rw [left.capacity_eq, right.capacity_eq, hcapacity]

theorem isDisposed_eq : s.isDisposed = t.isDisposed := by
  cases h with
  | released left right => rw [left.isDisposed_eq, right.isDisposed_eq]
  | holding left right => rw [left.isDisposed_eq, right.isDisposed_eq]

theorem bucketSize_eq (hsize : p = q) : s.bucketSize = t.bucketSize := by
  cases h with
  | released _ _ hp hq => rw [hp, hq, hsize]
  | holding _ _ _ _ hp hq => rw [hp, hq, hsize]

theorem buckets_eq (hsize : p = q) : s.buckets = t.buckets := by
  have hsize' := h.bucketSize_eq hsize
  cases h with
  | released left right => rw [left.buckets, right.buckets]
  | holding left right => rw [left.buckets, right.buckets, hsize']

/-! ## Reading -/

theorem stats_matches : Answer.Matches p q { outcome := .ok (.stats s.stats) } { outcome := .ok (.stats t.stats) } := by
  refine .value ?_ fun hsize => ?_
  · simp only [Value.withoutBuckets, stats, h.frameCount_eq, h.dataEnd_eq, h.capacity_eq]
  · simp only [stats, h.frameCount_eq, h.dataEnd_eq, h.capacity_eq, h.buckets_eq hsize, h.bucketSize_eq hsize]

theorem description_matches :
    Answer.Matches p q { outcome := .ok (.description s.describe) } { outcome := .ok (.description t.describe) } := by
  refine .value ?_ fun hsize => ?_
  · simp [Value.withoutBuckets, describe, h.frameCount_eq, h.dataEnd_eq, h.capacity_eq, h.isDisposed_eq]
  · simp only [describe, h.frameCount_eq, h.dataEnd_eq, h.capacity_eq, h.isDisposed_eq, h.buckets_eq hsize,
      h.bucketSize_eq hsize]

theorem answer_matches (reading : Reading) : Answer.Matches p q (reading.answer s) (reading.answer t) := by
  cases reading with
  | stats => exact h.stats_matches
  | table => exact .value rfl fun hsize => by rw [h.buckets_eq hsize]
  | description => exact h.description_matches
  | get i =>
      refine .of_eq ?_
      cases h with
      | released left right => simp only [Reading.answer, Store.get, left.seek_eq, right.seek_eq]
      | holding left right => simp only [Reading.answer, left.get_eq, right.get_eq]
  | getWithPrefix i =>
      refine .of_eq ?_
      cases h with
      | released left right => simp only [Reading.answer, getWithPrefix, left.seek_eq, right.seek_eq]
      | holding left right => simp only [Reading.answer, left.getWithPrefix_eq, right.getWithPrefix_eq]
  | getRange start count =>
      refine .of_eq ?_
      cases h with
      | released left right => simp only [Reading.answer, left.getRange_eq, right.getRange_eq]
      | holding left right => simp only [Reading.answer, left.getRange_eq, right.getRange_eq]
  | iterate start stop =>
      refine .of_eq ?_
      cases h with
      | released left right => simp only [Reading.answer, iterate, Action.bind_apply, left.range_eq, right.range_eq]
      | holding left right => simp only [Reading.answer, left.iterate_eq, right.iterate_eq]
  | range start stop pulls =>
      refine .of_eq ?_
      cases h with
      | released left right => simp only [Reading.answer, left.range_eq, right.range_eq]
      | holding left right => simp only [Reading.answer, left.range_eq, right.range_eq]
  | frames pulls =>
      refine .of_eq ?_
      rw [Reading.answer, Reading.answer, Store.frames, Store.frames, h.frameCount_eq]
      cases h with
      | released left right => rw [left.range_eq, right.range_eq]
      | holding left right => rw [left.range_eq, right.range_eq]
  | bytes =>
      refine .of_eq ?_
      cases h with
      | released left right => simp only [Reading.answer, Store.bytes, left.written_eq, right.written_eq]
      | holding left right => simp only [Reading.answer, left.bytes_eq, right.bytes_eq]
  | written =>
      refine .of_eq ?_
      cases h with
      | released left right => simp only [Reading.answer, left.written_eq, right.written_eq]
      | holding left right => simp only [Reading.answer, left.written_eq, right.written_eq]

end Twins

/-! ## Changing -/

/-- Both actions end in twins, with values that are related or with the same failure. -/
def EndAlike (p q : Nat) (related : α → α → Prop) (x y : EStateM.Result Failure Store α) : Prop :=
  (∃ a a' s t, x = .ok a s ∧ y = .ok a' t ∧ related a a' ∧ Twins p q s t) ∨
    ∃ e s t, x = .error e s ∧ y = .error e t ∧ Twins p q s t

theorem EndAlike.settle {related : α → α → Prop} {x y : EStateM.Result Failure Store α} {value : α → Value}
    (h : EndAlike p q related x y)
    (hvalue : ∀ a a', related a a' → Answer.Matches p q { outcome := .ok (value a) } { outcome := .ok (value a') }) :
    Answer.Matches p q (settle value x).1 (settle value y).1 ∧ Twins p q (settle value x).2 (settle value y).2 := by
  rcases h with ⟨a, a', s, t, rfl, rfl, hrelated, htwins⟩ | ⟨e, s, t, rfl, rfl, htwins⟩
  · exact ⟨hvalue a a' hrelated, htwins⟩
  · exact ⟨.of_eq rfl, htwins⟩

namespace Twins

theorem append_alike (h : Twins p q s t)
    (hsize : p = q ∨ outgrows alloc payload s = false ∧ outgrows alloc payload t = false) :
    EndAlike p q (fun a a' => p = q → a = a') (append alloc payload s) (append alloc payload t) := by
  cases h with
  | released left right hp hq =>
      exact .inr ⟨_, s, t, left.append_eq alloc payload, right.append_eq alloc payload, .released left right hp hq⟩
  | @holding b c log left right hcapacity hexpansion hp hq =>
      -- The limit on buckets is all that could tell the two apart: the room is the same in both.
      have hlarge : tooLarge s.bucketSize log payload.length = tooLarge t.bucketSize log payload.length := by
        rcases hsize with hsize | ⟨hwithin, hwithin'⟩
        · rw [hp, hq, hsize]
        · rw [left.tooLarge_eq hwithin, right.tooLarge_eq hwithin']
      have hadmission : admission alloc c.expansion t.bucketSize c.capacity log.sizes payload.length =
          admission alloc b.expansion s.bucketSize b.capacity log.sizes payload.length := by
        cases hcase : tooLarge s.bucketSize log payload.length with
        | some size => rw [admission_tooLarge hcase, admission_tooLarge (hlarge ▸ hcase)]
        | none => rw [admission_fits hcase, admission_fits (hlarge ▸ hcase), hcapacity, hexpansion]
      cases hverdict : admission alloc b.expansion s.bucketSize b.capacity log.sizes payload.length with
      | error r =>
          rw [hverdict] at hadmission
          exact .inr ⟨_, s, t, left.append_turnedDown hverdict, right.append_turnedDown hadmission,
            .holding left right hcapacity hexpansion hp hq⟩
      | ok size =>
          rw [hverdict] at hadmission
          obtain ⟨s', b', bucket, happend, hnext, hkept, hroom, hpolicy, hlast⟩ := left.append_admitted hverdict
          obtain ⟨t', c', bucket', happend', hnext', hkept', hroom', hpolicy', hlast'⟩ :=
            right.append_admitted hadmission
          have htwins : Twins p q s' t' := .holding hnext hnext' (hroom.trans hroom'.symm)
            (by rw [hpolicy, hpolicy', hexpansion]) (hkept.trans hp) (hkept'.trans hq)
          refine .inl ⟨bucket, bucket', s', t', happend, happend', fun heq => ?_, htwins⟩
          rw [htwins.buckets_eq heq, hlast'] at hlast
          cases hlast
          rfl

theorem extend_alike {payloads : List Bytes} (h : Twins p q s t)
    (hsize : p = q ∨ staysWithin alloc payloads s ∧ staysWithin alloc payloads t) :
    EndAlike p q Eq (extend alloc payloads s) (extend alloc payloads t) := by
  induction payloads generalizing s t with
  | nil => exact .inl ⟨0, 0, s, t, rfl, rfl, rfl, h⟩
  | cons payload rest ih =>
      rcases h.append_alike (hsize.imp_right (And.imp outgrows_of_staysWithin outgrows_of_staysWithin)) with
        ⟨bucket, bucket', s', t', happend, happend', -, htwins⟩ | ⟨e, s', t', happend, happend', htwins⟩
      · have hrest := ih htwins (hsize.imp_right fun hwithin => ?_)
        · rcases hrest with ⟨n, n', u, v, hdone, hdone', hn, hlast⟩ | ⟨e, u, v, hfailed, hfailed', hlast⟩
          · refine .inl ⟨n + 1, n' + 1, u, v, ?_, ?_, congrArg (· + 1) hn, hlast⟩
            · simp only [extend_cons, happend, hdone]
            · simp only [extend_cons, happend', hdone']
          · refine .inr ⟨e, u, v, ?_, ?_, hlast⟩
            · simp only [extend_cons, happend, hfailed]
            · simp only [extend_cons, happend', hfailed']
        · simp only [staysWithin, happend, happend', Bool.and_eq_true] at hwithin
          exact ⟨hwithin.1.2, hwithin.2.2⟩
      · refine .inr ⟨e, s', t', ?_, ?_, htwins⟩
        · simp only [extend_cons, happend]
        · simp only [extend_cons, happend']

theorem reset_alike (h : Twins p q s t) (clearBuffer : Bool) :
    EndAlike p q Eq (reset clearBuffer s) (reset clearBuffer t) := by
  cases h with
  | released left right hp hq =>
      exact .inr ⟨_, s, t, left.reset_eq clearBuffer, right.reset_eq clearBuffer, .released left right hp hq⟩
  | holding left right hcapacity hexpansion hp hq =>
      subst hp hq
      refine .inl ⟨_, _, _, _, left.reset_apply clearBuffer, right.reset_apply clearBuffer, rfl,
        fresh left.bucketSize right.bucketSize ?_ ?_ ?_⟩
      · rw [Buffer.capacity_zeroedIf]
        exact left.addressable
      · rw [Buffer.capacity_zeroedIf, Buffer.capacity_zeroedIf, hcapacity]
      · rw [Buffer.expansion_zeroedIf, Buffer.expansion_zeroedIf, hexpansion]

theorem clear_alike (h : Twins p q s t) (alloc : Allocator) (capacity : Option Nat) :
    EndAlike p q Eq (clear alloc capacity s) (clear alloc capacity t) := by
  cases h with
  | released left right hp hq =>
      exact .inr ⟨_, s, t, left.clear_eq alloc capacity, right.clear_eq alloc capacity, .released left right hp hq⟩
  | @holding b c log left right hcapacity hexpansion hp hq =>
      subst hp hq
      have hfresh := fresh left.bucketSize right.bucketSize left.addressable hcapacity hexpansion
      cases capacity with
      | none => exact .inl ⟨_, _, _, _, left.clear_none alloc, right.clear_none alloc, rfl, hfresh⟩
      | some size =>
          have hleft := left.clear_some alloc size
          have hright := right.clear_some alloc size
          rw [← hcapacity] at hright
          by_cases hgranted : size ≤ maxAllocation ∧ (size ≤ b.capacity ∨ alloc size)
          · rw [if_pos hgranted] at hleft hright
            refine .inl ⟨_, _, _, _, hleft, hright, rfl, fresh left.bucketSize right.bucketSize ?_ ?_ hexpansion⟩
            · rw [Buffer.capacity_resized]
              exact hgranted.1
            · rw [hcapacity, Buffer.capacity_resized, ← hcapacity, Buffer.capacity_resized]
          · rw [if_neg hgranted] at hleft hright
            exact .inr ⟨_, _, _, hleft, hright, hfresh⟩

theorem dispose_alike (h : Twins p q s t) : EndAlike p q Eq (dispose s) (dispose t) := by
  refine .inl ⟨_, _, _, _, rfl, rfl, rfl, ?_⟩
  cases h with
  | released _ _ hp hq => exact .released (released_dispose s) (released_dispose t) hp hq
  | holding _ _ _ _ hp hq => exact .released (released_dispose s) (released_dispose t) hp hq

/-! ## Runs -/

theorem perform (h : Twins p q s t) (request : Request)
    (hsize : p = q ∨ staysWithin request.alloc request.operation.payloads s ∧
      staysWithin request.alloc request.operation.payloads t) :
    Answer.Matches p q (request.perform s).1 (request.perform t).1 ∧
      Twins p q (request.perform s).2 (request.perform t).2 := by
  rcases request with ⟨alloc, operation⟩
  cases operation with
  | append payload =>
      have happend := h.append_alike (hsize.imp_right (And.imp outgrows_of_staysWithin outgrows_of_staysWithin))
      exact happend.settle fun a a' heq => .value rfl fun hsize => by rw [heq hsize]
  | appendText text =>
      have happend := h.append_alike (hsize.imp_right (And.imp outgrows_of_staysWithin outgrows_of_staysWithin))
      exact happend.settle fun a a' heq => .value rfl fun hsize => by rw [heq hsize]
  | extend payloads => exact (h.extend_alike hsize).settle fun a a' heq => .of_eq (by rw [heq])
  | reset clearBuffer => exact (h.reset_alike clearBuffer).settle fun a a' _ => .of_eq rfl
  | clear capacity => exact (h.clear_alike alloc capacity).settle fun a a' _ => .of_eq rfl
  | dispose => exact h.dispose_alike.settle fun a a' _ => .of_eq rfl
  | read reading => exact ⟨h.answer_matches reading, h⟩

/-- The same requests meet the same answers, apart from the buckets where these are of different sizes. -/
theorem run (h : Twins p q s t) {requests : List Request}
    (hsize : p = q ∨ runsWithin requests s ∧ runsWithin requests t) :
    (run requests s).1.map Answer.withoutBuckets = (run requests t).1.map Answer.withoutBuckets ∧
      (p = q → (run requests s).1 = (run requests t).1) ∧ Twins p q (run requests s).2 (run requests t).2 := by
  induction requests generalizing s t with
  | nil => exact ⟨rfl, fun _ => rfl, h⟩
  | cons request rest ih =>
      simp only [runsWithin, Bool.and_eq_true] at hsize
      obtain ⟨⟨hvisible, hanswer⟩, hnext⟩ := h.perform request
        (hsize.imp_right fun hwithin => ⟨hwithin.1.1, hwithin.2.1⟩)
      obtain ⟨hvisible', hanswers, hlast⟩ := ih hnext (hsize.imp_right fun hwithin => ⟨hwithin.1.2, hwithin.2.2⟩)
      exact ⟨congrArg₂ List.cons hvisible hvisible',
        fun heq => congrArg₂ List.cons (hanswer heq) (hanswers heq), hlast⟩

end Twins
end FrameLog.Store
