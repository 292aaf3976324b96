import FrameLog.Proofs.Store.Creation
import FrameLog.Proofs.Store.Failing
import FrameLog.Proofs.Store.Faultless
import FrameLog.Store.SelfCheck

/-!
# The self checks

What the checks ask of a store that holds a log: none of the frames handed out in order is an error
(`Frames.readable_iff`), as many are got by number as the log has (`Holds.succeeds_get_iff`), and the payloads stand in
front in the log (`Holds.readsBack_all_iff`). So the check of bytes passes whatever they are (`checkAdopted_passes`),
and the check of payloads fails only where a bucket is denied its room (`checkAppended_iff`).
-/

namespace FrameLog.Store

open Cursor (elements_payloadView)
open Log

variable {s t : Store} {buffer : Buffer} {log : Log} {alloc : Allocator} {payloads : List Bytes}

namespace Frames

variable {f : Frames} {n : Nat}

theorem pull_of_empty (h : f.remaining = 0) (pulls : Nat) : (f.pull pulls).1 = List.replicate pulls none := by
  induction pulls with
  | zero => rfl
  | succ pulls ih =>
      have hnext : f.next = (none, f) := by rw [next, h]
      rw [pull, hnext, List.replicate_succ, ← ih]

theorem readable_go_iff (h : f.remaining = n) :
    readable.go f n = true ↔ ∀ pulls e, some (.error e) ∉ (f.pull pulls).1 := by
  -- By induction on the frames that are left: at an error the check stops, and it is the first that is pulled.
  induction n generalizing f with
  | zero =>
      refine iff_of_true rfl fun pulls e hmem => ?_
      rw [pull_of_empty h] at hmem
      cases List.eq_of_mem_replicate hmem
  | succ n ih =>
      cases hnext : f.cursor.next Buffer.region with
      | error e =>
          have hitem : f.next = (some (.error e), { f with remaining := 0 }) := by rw [next, h, hnext]
          rw [readable.go, hitem]
          refine iff_of_false Bool.false_ne_true fun hnone => hnone 1 e ?_
          rw [pull, hitem]
          exact List.mem_cons_self
      | ok x =>
          obtain ⟨frame, cursor⟩ := x
          have hitem : f.next = (some (.ok frame), ⟨cursor, n⟩) := by rw [next, h, hnext]
          rw [readable.go, hitem]
          refine (ih rfl).trans ⟨fun hrest pulls e hmem => ?_, fun hall pulls e hmem => hall (pulls + 1) e ?_⟩
          · cases pulls with
            | zero => cases hmem
            | succ pulls =>
                rw [pull, hitem] at hmem
                rcases List.mem_cons.mp hmem with hfirst | hmem
                · cases hfirst
                · exact hrest pulls e hmem
          · rw [pull, hitem]
            exact List.mem_cons_of_mem _ hmem

/-- The frames are readable if no error is handed out, however often the iterator is pulled at. -/
theorem readable_iff : f.readable = true ↔ ∀ pulls e, some (.error e) ∉ (f.pull pulls).1 := readable_go_iff rfl

end Frames

namespace Holds

variable (h : Holds s buffer log)
include h

theorem readable_frames : ∃ f, s.frames = .ok f ∧ f.readable = true := by
  obtain ⟨f, hframes, halong⟩ := h.range_along (Nat.zero_le _) (Nat.le_refl _)
  refine ⟨f, by rw [frames, h.count, hframes], Frames.readable_iff.mpr fun pulls e hmem => ?_⟩
  obtain ⟨g, -, hpull⟩ := halong.pull_eq pulls
  rw [hpull] at hmem
  simp at hmem

theorem succeeds_get_iff (i : Nat) : succeeds (s.get i) = true ↔ i < log.length := by
  rw [h.get_eq]
  split
  · next hi => exact iff_of_true rfl hi
  · next hi => exact iff_of_false Bool.false_ne_true hi

theorem readsBack_iff (payload : Bytes) (i : Nat) : s.readsBack payload i = true ↔ log[i]? = some payload := by
  rw [readsBack, h.get_eq]
  by_cases hi : i < log.length
  · simp [hi, elements_payloadView]
  · simp [hi, refuse]

/-- The payloads are read back under their numbers if and only if the log begins with them. -/
theorem readsBack_all_iff :
    (payloads.zipIdx.all fun (payload, i) => s.readsBack payload i) = true ↔ payloads <+: log := by
  simp only [List.all_eq_true, Prod.forall, List.mem_zipIdx_iff_getElem?, h.readsBack_iff]
  rw [List.prefix_iff_getElem?]
  constructor
  · intro hread i hi
    exact hread _ i (List.getElem?_eq_getElem hi)
  · intro hprefix payload i hpayload
    obtain ⟨hi, rfl⟩ := List.getElem?_eq_some_iff.mp hpayload
    exact hprefix i hi

end Holds

/-! ## Bytes that are adopted -/

/-- Bytes are turned down, or they are frames and each of them is read, in order and by number. -/
theorem checkAdopted_passes (alloc : Allocator) (data : Bytes) : checkAdopted alloc data = true := by
  unfold checkAdopted
  dsimp only
  split
  · next f hfault => exact (ofBytes_ne_fail _ _ _ hfault).elim
  · rfl
  · next s haccepted =>
      have hadoption := ofBytes_adoption haccepted
      obtain ⟨log, hframed, hfits, rfl⟩ := hadoption.eq_ok_iff.mp haccepted
      have hholds := hadoption.holds hframed hfits
      obtain ⟨f, hframes, hreadable⟩ := hholds.readable_frames
      rw [hframes, Bool.and_eq_true, List.all_eq_true]
      refine ⟨hreadable, fun i hi => (hholds.succeeds_get_iff i).mpr ?_⟩
      rw [← hholds.count]
      exact List.mem_range.mp hi

/-! ## Payloads that are appended -/

/-- Appending ends with all payloads in or with one turned down. -/
theorem Holds.extend_ne_fail (h : Holds s buffer log) {f : Fault} : extend alloc payloads s ≠ .error (.fault f) t := by
  obtain ⟨u, c, -, hends⟩ := h.extend_ends alloc payloads
  rcases hends with ⟨n, hdone⟩ | ⟨e, hfailed, hbenign⟩
  · rw [hdone]
    intro hfault
    cases hfault
  · rw [hfailed]
    rintro ⟨⟩
    exact hbenign

/-- In a store that could be created, the payloads are the log if they all go in. -/
theorem checkAppended_iff_ne_fail (alloc : Allocator) (head : UInt8) (rest : Bytes) :
    checkAppended alloc (head :: rest) = true ↔ ∀ f, create alloc (configOf head) ≠ fail f := by
  rw [checkAppended]
  dsimp only
  split
  · next f hfault => exact iff_of_false Bool.false_ne_true fun hnone => hnone f hfault
  · next r hrefused => exact iff_of_true rfl fun f hfault => by cases hrefused.symm.trans hfault
  · next s hcreated =>
      refine iff_of_true ?_ fun f hfault => by cases hcreated.symm.trans hfault
      have hholds := create_holds hcreated
      split
      · next f t hfault => exact (hholds.extend_ne_fail hfault).elim
      · rfl
      · next n t hdone =>
          obtain ⟨c, ht⟩ := (extend_ok hdone).2.holds hholds
          exact ht.readsBack_all_iff.mpr (List.prefix_refl _)

theorem buffer_configOf (head : UInt8) :
    (∃ b, (configOf head).buffer alloc = .ok b) ↔ head = 0 ∨ alloc head.toNat = true := by
  have hgrowth : (Expansion.growable Expansion.defaultFactor).validate = .ok () := by decide +kernel
  have hsize : head.toNat ≤ maxAllocation := Nat.le_trans (Nat.le_of_lt head.toNat_lt) (by decide)
  have hvalid : (configOf head).validate = .ok () :=
    Config.validate_eq_ok.mpr ⟨Nat.succ_ne_zero _, hsize, hgrowth⟩
  have hzero : head = 0 ↔ head.toNat = 0 := UInt8.toNat_inj.symm
  rw [Config.buffer, hvalid, ok_bind, hzero]
  constructor
  · rintro ⟨b, hb⟩
    obtain ⟨_, -, hb⟩ := bind_eq_ok.mp hb
    obtain ⟨_, hgranted, -⟩ := bind_eq_ok.mp hb
    exact (Buffer.request_eq_ok.mp hgranted).imp_right And.right
  · intro hgranted
    exact ⟨_, Buffer.withCapacity_eq hgrowth (Buffer.request_eq_ok.mpr (hgranted.imp_right (And.intro hsize)))⟩

theorem reserves_configOf (head : UInt8) : (configOf head).Reserves alloc ↔ alloc Table.entrySize = true := by
  have hpos : 0 < (configOf head).bucketSize := Nat.succ_pos _
  have hone : (configOf head).expectedBuckets = 1 := by
    rw [Config.expectedBuckets, if_neg (Nat.ne_of_gt hpos)]
    exact Table.bucketsFor_zero hpos
  rw [Config.Reserves, hone, Nat.one_mul]
  exact and_iff_right (by decide)

/-- The check of payloads fails if and only if there is a buffer and no room for the first bucket. -/
theorem checkAppended_iff (alloc : Allocator) (head : UInt8) (rest : Bytes) :
    checkAppended alloc (head :: rest) = true ↔
      (head = 0 ∨ alloc head.toNat = true → alloc Table.entrySize = true) := by
  rw [checkAppended_iff_ne_fail, ← buffer_configOf, ← reserves_configOf head]
  exact not_exists.symm.trans ((not_congr create_fault).trans not_and_not_right)

end FrameLog.Store
