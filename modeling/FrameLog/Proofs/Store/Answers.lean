import FrameLog.Proofs.Store.Read
import FrameLog.Proofs.Store.Run

/-!
# Failures that are answers

A request that cannot be met is turned down, but nothing that is read is corrupt and no computation goes wrong:
every failure of reading a store in use is benign.
-/

namespace FrameLog

namespace Store

variable {α β : Type} {s : Store} {buffer : Buffer} {log : Log}

def Benign (x : Outcome α) : Prop := ∀ e, x = .error e → e.Benign

def Answer.Benign (answer : Answer) : Prop := ∀ e ∈ answer.failures, e.Benign

theorem benign_ok (a : α) : Benign (.ok a : Outcome α) := by
  intro e h
  cases h

theorem benign_refuse {r : Refusal} (h : Failure.Benign (.refused r)) : Benign (refuse r : Outcome α) := by
  intro e he
  cases he
  exact h

theorem benign_ite {p : Prop} [Decidable p] {x y : Outcome α} (hx : p → Benign x) (hy : ¬ p → Benign y) :
    Benign (if p then x else y) := by
  split
  · next h => exact hx h
  · next h => exact hy h

variable {visits : List (Nat × View UInt8)}

theorem benign_refusal {r : Refusal} (h : Failure.Benign (.refused r)) :
    Answer.Benign { outcome := refuse r, visits } := by
  intro e he
  obtain rfl := List.mem_singleton.mp he
  exact h

theorem benign_value {value : Value} (h : value.failures = []) : Answer.Benign { outcome := .ok value, visits } := by
  intro e he
  have hnone : Answer.failures { outcome := .ok value, visits } = [] := h
  rw [hnone] at he
  cases he

theorem benign_map {x : Outcome α} {f : α → Value} (hx : Benign x) (hf : ∀ a, (f a).failures = []) :
    Answer.Benign { outcome := x.map f } := by
  cases x with
  | error e' =>
      intro e he
      obtain rfl := List.mem_singleton.mp he
      exact hx _ rfl
  | ok a => exact benign_value (hf a)

/-! ## Reading payload after payload -/

namespace Frames

variable {start count : Nat} {f : Frames}

/-- Pulling gives the payloads that are left, then nothing for ever. -/
theorem Along.pull_eq (h : Along log start count f) (n : Nat) :
    ∃ g, Along log (start + min n count) (count - n) g ∧ f.pull n =
      ((List.range' start (min n count)).map (fun i => some (.ok (Cursor.payloadView Buffer.region log i))) ++
        List.replicate (n - count) none, g) := by
  induction n generalizing start count f with
  | zero => exact ⟨f, by simpa using h, by simp [pull]⟩
  | succ n ih =>
      cases count with
      | zero =>
          obtain ⟨g, halong, hpull⟩ := ih h
          refine ⟨g, by simpa using halong, ?_⟩
          simp only [Nat.min_zero, List.range'_zero, List.map_nil, List.nil_append, Nat.sub_zero] at hpull
          simp [pull, h.next_done, hpull, List.replicate_succ]
      | succ count =>
          obtain ⟨f', hnext, halong'⟩ := h.next_succ
          obtain ⟨g, halong, hpull⟩ := ih halong'
          have hmin : min (n + 1) (count + 1) = min n count + 1 := by omega
          refine ⟨g, ?_, ?_⟩
          · rw [hmin, Nat.add_sub_add_right, ← Nat.add_assoc, Nat.add_right_comm]
            exact halong
          · rw [pull, hnext, hmin, List.range'_succ, Nat.add_sub_add_right]
            simp only [hpull]
            rfl

theorem Along.failures_pulled (h : Along log start count f) (n : Nat) : (f.pulled n).failures = [] := by
  obtain ⟨g, -, hpull⟩ := h.pull_eq n
  rw [pulled, hpull]
  simp [Value.failures, List.filterMap_append, List.filterMap_map]

end Frames

/-! ## A store in use -/

theorem Holds.benign_range (h : Holds s buffer log) (start stop pulls : Nat) :
    Answer.Benign { outcome := (s.range start stop).map (Frames.pulled pulls) } := by
  rcases h.range_cases start stop with ⟨f, hrange, halong⟩ | ⟨index, length, hrange⟩
  · rw [hrange]
    exact benign_value (halong.failures_pulled pulls)
  · rw [hrange]
    exact benign_refusal trivial

theorem Holds.benign_answer (h : Holds s buffer log) (reading : Reading) : (reading.answer s).Benign := by
  cases reading with
  | get i =>
      refine benign_map ?_ fun _ => rfl
      rw [h.get_eq]
      exact benign_ite (fun _ => benign_ok _) fun _ => benign_refuse trivial
  | getWithPrefix i =>
      refine benign_map ?_ fun _ => rfl
      rw [h.getWithPrefix_eq]
      exact benign_ite (fun _ => benign_ok _) fun _ => benign_refuse trivial
  | getRange start count =>
      refine benign_map ?_ fun _ => rfl
      rw [h.getRange_eq]
      exact benign_ite (fun _ => benign_refuse trivial) fun _ => benign_ite (fun _ => benign_refuse trivial) fun _ =>
        benign_ite (fun _ => benign_refuse trivial) fun _ => benign_ok _
  | iterate start stop =>
      rw [Reading.answer, h.iterate_eq]
      by_cases hstop : log.length < stop
      · rw [if_pos hstop]
        exact benign_refusal trivial
      by_cases hstart : stop < start
      · rw [if_neg hstop, if_pos hstart]
        exact benign_refusal trivial
      · rw [if_neg hstop, if_neg hstart]
        exact benign_value rfl
  | range start stop pulls => exact h.benign_range start stop pulls
  | frames pulls => exact h.benign_range 0 s.frameCount pulls
  | bytes =>
      refine benign_map ?_ fun _ => rfl
      rw [h.bytes_eq]
      exact benign_ok _
  | written =>
      refine benign_map ?_ fun _ => rfl
      rw [h.written_eq]
      exact benign_ok _
  | stats => exact benign_value rfl
  | table => exact benign_value rfl
  | description => exact benign_value rfl

end Store
end FrameLog
