import Mathlib
import FrameLog.Binary.Basic

/-!
# Rounding to a format

What comes out of rounding is held by the format, and a whole number that the format holds comes out as it is. The order
of two numbers is that of their values, and rounding up gives the smallest whole number that is not below the value.
-/

namespace FrameLog.Binary

variable {f : Format} {x y : Binary} {negative : Bool} {m n shift digits : Nat} {d e : Int}

/-- The numbers that a format holds. -/
def Format.Holds (f : Format) : Binary → Prop
  | .finite _ m e => m < 2 ^ f.precision ∧ f.low ≤ e ∧ e ≤ f.high
  | _ => True

/-- The value of a significand at an exponent. -/
def magnitude (m : Nat) (e : Int) : ℚ := m * 2 ^ e

/-! ## Rounding stays in the format -/

theorem shiftRound_le (n shift : Nat) : shiftRound n shift ≤ n >>> shift + 1 := by
  by_cases hshift : shift = 0
  · simp [shiftRound, hshift]
  have hhalves : (n >>> (shift - 1)) >>> 1 = n >>> shift := by
    rw [← Nat.shiftRight_add, Nat.sub_add_cancel (Nat.pos_of_ne_zero hshift)]
  simp only [shiftRound, hshift, ↓reduceIte, hhalves]
  split
  · omega
  · split
    · omega
    · split <;> omega

theorem shiftLeft_lt (h : n.log2 + 1 + shift ≤ digits) : n <<< shift < 2 ^ digits := by
  rw [Nat.shiftLeft_eq]
  calc n * 2 ^ shift
      < 2 ^ (n.log2 + 1) * 2 ^ shift := Nat.mul_lt_mul_of_pos_right Nat.lt_log2_self (Nat.two_pow_pos _)
    _ = 2 ^ (n.log2 + 1 + shift) := (Nat.pow_add ..).symm
    _ ≤ 2 ^ digits := Nat.pow_le_pow_right (by decide) h

theorem shiftRight_lt (h : n.log2 + 1 ≤ shift + digits) : n >>> shift < 2 ^ digits := by
  rw [Nat.shiftRight_eq_div_pow]
  refine Nat.div_lt_of_lt_mul (Nat.lt_of_lt_of_le Nat.lt_log2_self ?_)
  rw [← Nat.pow_add]
  exact Nat.pow_le_pow_right (by decide) h

theorem holds_zero (hf : f.low ≤ f.high) : f.Holds (.finite negative 0 f.low) :=
  ⟨Nat.two_pow_pos _, Int.le_refl _, hf⟩

theorem settle_of_lt (hsome : m ≠ 0) (hm : m < 2 ^ f.precision) (he : e ≤ f.high) :
    settle f negative m e = .finite negative m e := by
  have hdigits : m >>> f.precision = 0 := by rw [Nat.shiftRight_eq_div_pow, Nat.div_eq_of_lt hm]
  rw [settle, if_neg hsome, if_pos hdigits, settle.within, if_neg (Int.not_lt.mpr he)]

theorem settle_holds (hf : f.low ≤ f.high) (hm : m ≤ 2 ^ f.precision) (he : f.low ≤ e) :
    f.Holds (settle f negative m e) := by
  have hwithin {n : Nat} {d : Int} (hn : n < 2 ^ f.precision) (hd : f.low ≤ d) :
      f.Holds (settle.within f negative n d) := by
    unfold settle.within
    split
    · trivial
    · next hhigh => exact ⟨hn, hd, Int.not_lt.mp hhigh⟩
  unfold settle
  split
  · exact holds_zero hf
  · next hsome =>
      split
      · next hdigits =>
          refine hwithin ?_ he
          rw [Nat.shiftRight_eq_div_pow, Nat.div_eq_zero_iff] at hdigits
          exact hdigits.resolve_left (Nat.ne_of_gt (Nat.two_pow_pos _))
      · refine hwithin ?_ (by omega)
        rw [Nat.shiftRight_eq_div_pow]
        omega

theorem roundScaled_holds (hf : f.low ≤ f.high) (negative : Bool) (m : Nat) (e : Int) :
    f.Holds (roundScaled f negative m e) := by
  by_cases hm : m = 0
  · rw [roundScaled, if_pos hm]
    exact holds_zero hf
  have htarget : e + m.log2 + 1 - f.precision ≤ f.exponentFor (e + m.log2 + 1) := Int.le_max_left ..
  have hlow : f.low ≤ f.exponentFor (e + m.log2 + 1) := Int.le_max_right ..
  simp only [roundScaled, hm, ↓reduceIte]
  generalize f.exponentFor (e + m.log2 + 1) = target at htarget hlow
  split
  · -- The significand has digits to spare, and gets no more than these in front of its last place.
    exact settle_holds hf (Nat.le_of_lt (shiftLeft_lt (by omega))) hlow
  · exact settle_holds hf (Nat.le_trans (shiftRound_le ..) (shiftRight_lt (by omega))) hlow

theorem mul_holds (hf : f.low ≤ f.high) (x y : Binary) : f.Holds (mul f x y) := by
  unfold mul
  split
  · exact roundScaled_holds hf ..
  · trivial
  · trivial
  · split <;> trivial

/-! ## Values -/

/-- At a lower exponent a number has the same value with a longer significand. -/
theorem magnitude_eq_shiftLeft (m : Nat) (h : d ≤ e) : magnitude m e = magnitude (m <<< (e - d).toNat) d := by
  have hsplit : e = d + ((e - d).toNat : Int) := by omega
  rw [magnitude, magnitude, Nat.shiftLeft_eq]
  nth_rewrite 1 [hsplit]
  rw [zpow_add₀ two_ne_zero, zpow_natCast]
  push_cast
  ring

theorem magnitude_zero_right (m : Nat) : magnitude m 0 = m := by
  rw [magnitude, zpow_zero, mul_one]

theorem magnitude_of_nonneg (m : Nat) (he : 0 ≤ e) : magnitude m e = (m <<< e.toNat : Nat) := by
  rw [magnitude_eq_shiftLeft m he, Int.sub_zero, magnitude_zero_right]

theorem magnitude_of_neg (m : Nat) (he : e < 0) : magnitude m e = m / (2 ^ (-e).toNat : Nat) := by
  have hnat : (((-e).toNat : Nat) : Int) = -e := Int.toNat_of_nonneg (by omega)
  rw [Nat.cast_pow, Nat.cast_ofNat, ← zpow_natCast, hnat, zpow_neg, div_inv_eq_mul, magnitude]

theorem magnitude_lt_magnitude : magnitude m e < magnitude n e ↔ m < n := by
  rw [magnitude, magnitude, mul_lt_mul_iff_left₀ (zpow_pos two_pos e), Nat.cast_lt]

theorem magnitudeLt_iff : magnitudeLt m e n d ↔ magnitude m e < magnitude n d := by
  rw [magnitudeLt]
  split
  · next hle => rw [magnitude_eq_shiftLeft n hle, magnitude_lt_magnitude, decide_eq_true_iff]
  · next hlt =>
      rw [magnitude_eq_shiftLeft m (Int.le_of_not_le hlt), magnitude_lt_magnitude, decide_eq_true_iff]

theorem lt_iff : (finite false m e).lt (.finite false n d) ↔ magnitude m e < magnitude n d := magnitudeLt_iff

theorem two_zpow_le_magnitude (hm : m ≠ 0) {k : Int} : 2 ^ k ≤ magnitude m e ↔ k ≤ m.log2 + e := by
  have hle : ((2 ^ m.log2 : Nat) : ℚ) ≤ m := Nat.cast_le.mpr (Nat.log2_self_le hm)
  have hlt : (m : ℚ) < ((2 ^ (m.log2 + 1) : Nat) : ℚ) := Nat.cast_lt.mpr Nat.lt_log2_self
  push_cast at hle hlt
  rw [← zpow_natCast] at hle hlt
  have hlow : (2 : ℚ) ^ (m.log2 + e) ≤ magnitude m e := by
    rw [zpow_add₀ two_ne_zero]
    exact mul_le_mul_of_nonneg_right hle (le_of_lt (zpow_pos two_pos e))
  have hhigh : magnitude m e < (2 : ℚ) ^ (m.log2 + e + 1) := by
    rw [Int.add_right_comm, zpow_add₀ two_ne_zero]
    exact mul_lt_mul_of_pos_right hlt (zpow_pos two_pos e)
  constructor
  · intro h
    have := (zpow_lt_zpow_iff_right₀ (one_lt_two (α := ℚ))).mp (lt_of_le_of_lt h hhigh)
    omega
  · intro h
    exact le_trans (zpow_le_zpow_right₀ one_le_two h) hlow

/-! ## Whole numbers -/

theorem floor_magnitude (m : Nat) (e : Int) :
    ⌊magnitude m e⌋₊ = if 0 ≤ e then m <<< e.toNat else m >>> (-e).toNat := by
  split
  · next he => rw [magnitude_of_nonneg m he, Nat.floor_natCast]
  · next he => rw [magnitude_of_neg m (Int.not_le.mp he), Nat.floor_div_eq_div, Nat.shiftRight_eq_div_pow]

theorem ceilNat_eq (m : Nat) (e : Int) : ceilNat false m e = ⌈magnitude m e⌉₊ := by
  rw [ceilNat, if_neg Bool.false_ne_true]
  split
  · next he => rw [magnitude_of_nonneg m he, Nat.ceil_natCast]
  · next he =>
      have hpos : (0 : ℚ) < (2 ^ (-e).toNat : Nat) := Nat.cast_pos.mpr (Nat.two_pow_pos _)
      rw [magnitude_of_neg m (Int.not_le.mp he)]
      simp only [Nat.shiftLeft_eq, Nat.shiftRight_eq_div_pow]
      generalize 2 ^ (-e).toNat = unit at hpos
      have hunit : 0 < unit := Nat.cast_pos.mp hpos
      split
      · next hexact =>
          nth_rewrite 2 [← hexact]
          rw [Nat.cast_mul, mul_div_assoc, div_self (ne_of_gt hpos), mul_one, Nat.ceil_natCast]
      · next hrest =>
          have hle := Nat.div_mul_le_self m unit
          have hlt := Nat.lt_mul_div_succ m hunit
          generalize m / unit = q at hrest hle hlt
          rw [Nat.mul_comm] at hlt
          symm
          rw [Nat.ceil_eq_iff (Nat.succ_ne_zero q), Nat.succ_sub_one, lt_div_iff₀ hpos, div_le_iff₀ hpos]
          exact ⟨by exact_mod_cast Nat.lt_of_le_of_ne hle hrest, by exact_mod_cast Nat.le_of_lt hlt⟩

theorem shiftRound_mul_two_pow (n shift : Nat) : shiftRound (n * 2 ^ shift) shift = n := by
  cases shift with
  | zero => simp [shiftRound]
  | succ shift =>
      have hhalves : (n * 2 ^ (shift + 1)) >>> shift = n * 2 := by
        rw [Nat.pow_succ', ← Nat.mul_assoc, Nat.shiftRight_eq_div_pow, Nat.mul_div_cancel _ (Nat.two_pow_pos _)]
      simp [shiftRound, hhalves, Nat.shiftRight_eq_div_pow]

/-- A whole number that the format holds is kept by rounding. -/
theorem ofNat_exact (hlow : f.low ≤ 0) {k c : Nat} (hk : k < 2 ^ f.precision) (hhigh : c ≤ f.high) :
    ∃ m e, ofNat f (k * 2 ^ c) = .finite false m e ∧ magnitude m e = (k * 2 ^ c : Nat) := by
  generalize hn : k * 2 ^ c = n
  by_cases hzero : n = 0
  · exact ⟨0, f.low, by rw [ofNat, roundScaled, if_pos hzero], by simp [magnitude, hzero]⟩
  have hdigits : n.log2 < f.precision + c := by
    rw [Nat.log2_lt hzero, ← hn, Nat.pow_add]
    exact Nat.mul_lt_mul_of_pos_right hk (Nat.two_pow_pos c)
  simp only [ofNat, roundScaled, hzero, ↓reduceIte, Int.zero_add, Int.zero_sub, Int.sub_zero]
  have htarget : (n.log2 : Int) + 1 - f.precision ≤ f.exponentFor (n.log2 + 1) := Int.le_max_left ..
  have hor : f.exponentFor (n.log2 + 1) = (n.log2 : Int) + 1 - f.precision ∨ f.exponentFor (n.log2 + 1) = f.low := by
    unfold Format.exponentFor
    omega
  generalize f.exponentFor (n.log2 + 1) = target at htarget hor
  by_cases hpos : target ≤ 0
  · rw [if_pos hpos]
    have hshort : n <<< (-target).toNat < 2 ^ f.precision := shiftLeft_lt (by omega)
    have hsome : n <<< (-target).toNat ≠ 0 := by
      rw [Nat.shiftLeft_eq]
      exact Nat.mul_ne_zero hzero (Nat.ne_of_gt (Nat.two_pow_pos _))
    refine ⟨_, _, settle_of_lt hsome hshort (by omega), ?_⟩
    have hvalue := magnitude_eq_shiftLeft n hpos
    rw [Int.zero_sub, magnitude_zero_right] at hvalue
    exact hvalue.symm
  · rw [if_neg hpos]
    -- All digits behind the last place that is kept are zero.
    have hplaces : target.toNat ≤ c := by omega
    have hsplit : n = (k * 2 ^ (c - target.toNat)) * 2 ^ target.toNat := by
      rw [Nat.mul_assoc, ← Nat.pow_add, Nat.sub_add_cancel hplaces, hn]
    have hround : shiftRound n target.toNat = k * 2 ^ (c - target.toNat) := by
      rw [hsplit, shiftRound_mul_two_pow]
    rw [hround]
    generalize k * 2 ^ (c - target.toNat) = q at hsplit
    have hsome : q ≠ 0 := by
      rintro rfl
      exact hzero (hsplit.trans (Nat.zero_mul _))
    have hshort : q < 2 ^ f.precision := by
      have hshift : n >>> target.toNat = q := by
        rw [hsplit, Nat.shiftRight_eq_div_pow, Nat.mul_div_cancel _ (Nat.two_pow_pos _)]
      rw [← hshift]
      exact shiftRight_lt (by omega)
    refine ⟨_, _, settle_of_lt hsome hshort (by omega), ?_⟩
    rw [magnitude_of_nonneg q (by omega), Nat.shiftLeft_eq, ← hsplit]

end FrameLog.Binary
