import FrameLog.Growth
import FrameLog.Proofs.Binary

/-!
# How far growing goes

Growing never passes what can be allocated: where a scaled size is below that limit, its significand is too short for
rounding up to take it there. Growing in stages comes to the same as growing once.
-/

namespace FrameLog

/-! ## Steps and their sum -/

theorem Binary.ceilNat_le {negative : Bool} {m : Nat} {e : Int} (hm : m < 2 ^ 53) (he : (m.log2 : Int) + e < 63) :
    Binary.ceilNat negative m e ≤ maxAllocation := by
  unfold ceilNat
  split
  · exact Nat.zero_le _
  · split
    · next hpos =>
        have hlt : m * 2 ^ e.toNat < 2 ^ 63 := by
          calc m * 2 ^ e.toNat
              < 2 ^ (m.log2 + 1) * 2 ^ e.toNat := Nat.mul_lt_mul_of_pos_right Nat.lt_log2_self (Nat.two_pow_pos _)
            _ = 2 ^ (m.log2 + 1 + e.toNat) := (Nat.pow_add ..).symm
            _ ≤ 2 ^ 63 := Nat.pow_le_pow_right (by decide) (by omega)
        rw [Nat.shiftLeft_eq]
        exact Nat.le_of_lt_succ hlt
    · have hshift := Nat.shiftRight_le m (-e).toNat
      simp only [maxAllocation]
      split <;> omega

theorem roundUpSize_le {product : Binary} (h : Binary.Format.double.Holds product) :
    roundUpSize product ≤ maxAllocation := by
  cases product with
  | nan => exact Nat.zero_le _
  | infinity negative => cases negative <;> simp [roundUpSize]
  | finite negative m e =>
      simp only [roundUpSize]
      split
      · exact Nat.le_refl _
      · next hbelow =>
          cases negative with
          | true => exact Nat.zero_le _
          | false =>
              rcases Nat.eq_zero_or_pos m with rfl | hpos
              · simp [Binary.ceilNat]
              · refine Binary.ceilNat_le h.1 ?_
                simp at hbelow
                omega

theorem scaled_holds (current : Nat) (factor : Binary) : Binary.Format.double.Holds (scaled current factor) :=
  Binary.mul_holds (by decide) ..

theorem growStep_le (factor : Binary) {current : Nat} (h : current < maxAllocation) :
    growStep factor current ≤ maxAllocation := by
  have hscaled := roundUpSize_le (scaled_holds current factor)
  simp only [growStep]
  split
  · exact h
  · exact hscaled

theorem growTo_le (factor : Binary) {target : Nat} (h : target ≤ maxAllocation) (current : Nat) :
    growTo factor target current ≤ max current maxAllocation := by
  fun_induction growTo factor target current with
  | case1 current hlt ih =>
      have hstep := growStep_le factor (Nat.lt_of_lt_of_le hlt h)
      exact Nat.le_trans ih (Nat.max_le.mpr ⟨Nat.le_trans hstep (Nat.le_max_right ..), Nat.le_max_right ..⟩)
  | case2 current _ => exact Nat.le_max_left ..

/-! ## Growing in stages -/

theorem growTo_of_le (factor : Binary) {target current : Nat} (h : target ≤ current) :
    growTo factor target current = current := by
  rw [growTo, if_neg (Nat.not_lt.mpr h)]

/-- The steps do not depend on the target, so that the first target only stops on the way to the second. -/
theorem growTo_growTo (factor : Binary) (first second current : Nat) :
    growTo factor second (growTo factor first current) = growTo factor (max first second) current := by
  fun_induction growTo factor first current with
  | case1 current hlt ih =>
      have hlt' : current < max first second := Nat.lt_of_lt_of_le hlt (Nat.le_max_left ..)
      rw [ih, growTo.eq_def factor (max first second) current, if_pos hlt']
  | case2 current hge =>
      rcases Nat.le_total second current with hsecond | hsecond
      · rw [growTo_of_le factor hsecond, growTo_of_le factor (Nat.max_le.mpr ⟨Nat.not_lt.mp hge, hsecond⟩)]
      · rw [Nat.max_eq_right (Nat.le_trans (Nat.not_lt.mp hge) hsecond)]

end FrameLog
