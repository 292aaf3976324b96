import FrameLog.Word
import FrameLog.Proofs.Growth

/-!
# The way up

Growing goes up the chain of steps and stops at the first capacity that is enough (`nextCapacity_exact`). No step leaves
the words on the way, whatever the scaled size is: no number, below zero, or more than there can be.
-/

namespace FrameLog

open Binary

/-! ## A step in words -/

namespace Word

variable {product : Binary} {m current : Nat} {e : Int}

/-- The whole part of a number: too large a one gives the largest word, what is negative or no number gives zero. -/
def truncate : Binary → Nat
  | .nan => 0
  | .infinity negative => if negative then 0 else limit
  | .finite negative m e =>
    if negative then 0 else min (if 0 ≤ e then m <<< e.toNat else m >>> (-e).toNat) limit

/-- The whole part, and one more where that is less than the number; what reaches the largest allocation is as large. -/
def roundUp (product : Binary) : Outcome Nat :=
  if product ≠ .nan ∧ !product.lt (Binary.ofNat .double maxAllocation) then .ok maxAllocation
  else if (Binary.ofNat .double (truncate product)).lt product then add (truncate product) 1
  else .ok (truncate product)

/-- One step from `current`, whose scaled size is `product`; a sum that is no word is a fault. -/
def growStep (product : Binary) (current : Nat) : Outcome Nat := do
  let next ← roundUp product
  if next ≤ current then add current 1 else return next

/-- The largest allocation is rounded to `2 ^ 63`. -/
theorem lt_largest_iff :
    (Binary.finite false m e).lt (Binary.ofNat .double maxAllocation) ↔ magnitude m e < 2 ^ (63 : Int) := by
  have hlargest : Binary.ofNat .double maxAllocation = .finite false (2 ^ 52) 11 := by decide
  have hvalue : magnitude (2 ^ 52) 11 = 2 ^ (63 : Int) := by norm_num [magnitude]
  rw [hlargest, lt_iff, hvalue]

theorem roundUpSize_finite (m : Nat) (e : Int) :
    roundUpSize (.finite false m e) = if magnitude m e < 2 ^ (63 : Int) then ⌈magnitude m e⌉₊ else maxAllocation := by
  by_cases hm : m = 0
  · simp [roundUpSize, magnitude, ceilNat_eq, hm]
  have hbound := two_zpow_le_magnitude (e := e) hm (k := 63)
  by_cases hlt : magnitude m e < 2 ^ (63 : Int)
  · have hlog := mt hbound.mpr (not_le.mpr hlt)
    rw [if_pos hlt, ← ceilNat_eq, roundUpSize, if_neg (by simp [hlog])]
  · have hlog := hbound.mp (not_lt.mp hlt)
    rw [if_neg hlt, roundUpSize, if_pos (by simp [hlog, hm])]

theorem truncate_eq (h : magnitude m e < 2 ^ (63 : Int)) : truncate (.finite false m e) = ⌊magnitude m e⌋₊ := by
  have hpos : 0 ≤ magnitude m e := mul_nonneg (Nat.cast_nonneg m) (le_of_lt (zpow_pos two_pos e))
  have hfloor : (⌊magnitude m e⌋₊ : ℚ) < (2 ^ 63 : Nat) := lt_of_le_of_lt (Nat.floor_le hpos) (by exact_mod_cast h)
  rw [truncate, if_neg Bool.false_ne_true, ← floor_magnitude]
  exact Nat.min_eq_left (Nat.le_of_lt (Nat.lt_of_lt_of_le (Nat.cast_lt.mp hfloor) (by decide)))

/-- What has been cut down to its whole part is a number that the format holds. -/
theorem ofNat_floor_lt_iff (h : Format.double.Holds (.finite false m e)) :
    (Binary.ofNat .double ⌊magnitude m e⌋₊).lt (.finite false m e) ↔ (⌊magnitude m e⌋₊ : ℚ) < magnitude m e := by
  obtain ⟨hm, -, hhigh⟩ := h
  suffices hexact : ∃ n d, Binary.ofNat .double ⌊magnitude m e⌋₊ = .finite false n d ∧
      magnitude n d = (⌊magnitude m e⌋₊ : Nat) by
    obtain ⟨n, d, hfloor, hvalue⟩ := hexact
    rw [hfloor, lt_iff, hvalue]
  rw [floor_magnitude]
  split
  · next he =>
      rw [Nat.shiftLeft_eq]
      exact ofNat_exact (by decide) hm (by omega)
  · next he =>
      have hshort : m >>> (-e).toNat < 2 ^ Format.double.precision := Nat.lt_of_le_of_lt (Nat.shiftRight_le ..) hm
      have hexact := ofNat_exact (f := .double) (c := 0) (by decide) hshort (by decide)
      rwa [Nat.pow_zero, Nat.mul_one] at hexact

theorem roundUp_finite (h : Format.double.Holds (.finite false m e)) :
    roundUp (.finite false m e) = .ok (roundUpSize (.finite false m e)) := by
  have hsize := roundUpSize_le h
  rw [roundUpSize_finite] at hsize ⊢
  rw [roundUp]
  by_cases hlt : magnitude m e < 2 ^ (63 : Int)
  · rw [if_pos hlt] at hsize ⊢
    rw [if_neg (by simp [lt_largest_iff.mpr hlt]), truncate_eq hlt]
    have hfloor := Nat.floor_le_ceil (magnitude m e)
    by_cases hrest : (⌊magnitude m e⌋₊ : ℚ) < magnitude m e
    · have hceil : ⌊magnitude m e⌋₊ + 1 = ⌈magnitude m e⌉₊ :=
        Nat.le_antisymm (Nat.lt_ceil.mpr hrest) (Nat.ceil_le_floor_add_one _)
      rw [if_pos ((ofNat_floor_lt_iff h).mpr hrest), add_eq_ok, hceil]
      exact ⟨Nat.le_trans hsize (by decide), rfl⟩
    · have hceil := Nat.ceil_le.mpr (not_lt.mp hrest)
      rw [if_neg (mt (ofNat_floor_lt_iff h).mp hrest), Nat.le_antisymm hfloor hceil]
  · rw [if_neg hlt, if_pos (by simp [mt lt_largest_iff.mp hlt])]

theorem roundUp_eq (h : Format.double.Holds product) : roundUp product = .ok (roundUpSize product) := by
  cases product with
  | nan => decide
  | infinity negative => cases negative <;> decide
  | finite negative m e =>
      cases negative with
      | false => exact roundUp_finite h
      | true =>
          have hlargest : Binary.ofNat .double maxAllocation = .finite false (2 ^ 52) 11 := by decide
          have hzero : Binary.ofNat .double 0 = .finite false 0 (-1074) := by decide
          simp [roundUp, hlargest, Binary.lt, truncate, hzero, roundUpSize, ceilNat]

/-- Below the largest allocation no sum leaves the words, and the step goes up, but not past that. -/
theorem growStep_eq (h : Format.double.Holds product) (hcurrent : current < maxAllocation) :
    ∃ next, growStep product current = .ok next ∧ current < next ∧ next ≤ maxAllocation ∧
      next = if roundUpSize product ≤ current then current + 1 else roundUpSize product := by
  have hsize := roundUpSize_le h
  rw [growStep, roundUp_eq h, ok_bind]
  by_cases hstays : roundUpSize product ≤ current
  · rw [if_pos hstays, if_pos hstays]
    refine ⟨current + 1, add_eq_ok.mpr ⟨?_, rfl⟩, Nat.lt_succ_self _, hcurrent, rfl⟩
    exact Nat.le_trans hcurrent (by decide)
  · rw [if_neg hstays, if_neg hstays]
    exact ⟨_, rfl, Nat.not_le.mp hstays, hsize, rfl⟩

end Word

/-! ## The chain of steps -/

theorem growTo_eq_iterate (factor : Binary) (target current : Nat) :
    ∃ steps, growTo factor target current = (growStep factor)^[steps] current ∧
      ∀ fewer < steps, (growStep factor)^[fewer] current < target := by
  fun_induction growTo factor target current with
  | case1 current hlt ih =>
      obtain ⟨steps, hlast, hbefore⟩ := ih
      refine ⟨steps + 1, hlast, fun fewer hfewer => ?_⟩
      cases fewer with
      | zero => exact hlt
      | succ fewer => exact hbefore fewer (Nat.lt_of_succ_lt_succ hfewer)
  | case2 current _ => exact ⟨0, rfl, fun _ hfewer => absurd hfewer (Nat.not_lt_zero _)⟩

theorem le_growTo_current (factor : Binary) (target current : Nat) : current ≤ growTo factor target current := by
  fun_induction growTo factor target current with
  | case1 current _ ih => exact Nat.le_trans (Nat.le_of_lt (lt_growStep factor current)) ih
  | case2 current _ => exact Nat.le_refl current

theorem growTo_mono (factor : Binary) {first second : Nat} (h : first ≤ second) (current : Nat) :
    growTo factor first current ≤ growTo factor second current := by
  have hstages := growTo_growTo factor first second current
  rw [Nat.max_eq_right h] at hstages
  rw [← hstages]
  exact le_growTo_current ..

theorem nextCapacity_of_le {target : Nat} (h : target ≤ maxAllocation) (current : Nat) (factor : Binary) :
    nextCapacity current target factor = .ok (growTo factor target current) := by
  rw [nextCapacity, require_pos h]
  rfl

theorem nextCapacity_of_lt {target : Nat} (h : maxAllocation < target) (current : Nat) (factor : Binary) :
    nextCapacity current target factor = refuse (.outOfMemory target current) := by
  rw [nextCapacity, require_neg (Nat.not_le.mpr h)]
  rfl

/-- Whatever the factor is: growing is refused just where more is asked for than can be allocated. Otherwise it goes up
the chain of steps from `current` to the first capacity that is enough, which can be allocated if there was growing to
do. Each step goes up, whatever number the scaled size is, and what its sums give are words. So asking for more does not
give less, and growing in two stages comes to the same as growing once. -/
theorem nextCapacity_exact (factor : Binary) :
    (∀ current target,
      nextCapacity current target factor = refuse (.outOfMemory target current) ↔ maxAllocation < target) ∧
    (∀ current target, target ≤ maxAllocation → ∃ steps,
      nextCapacity current target factor = .ok ((growStep factor)^[steps] current) ∧
      (target ≤ current → steps = 0) ∧
      target ≤ (growStep factor)^[steps] current ∧
      (∀ fewer < steps, (growStep factor)^[fewer] current < target) ∧
      (current < target → (growStep factor)^[steps] current ≤ maxAllocation)) ∧
    (∀ current < maxAllocation, ∀ product, Format.double.Holds product → ∃ next,
      Word.growStep product current = .ok next ∧ current < next ∧ next ≤ maxAllocation) ∧
    (∀ current < maxAllocation, Word.growStep (scaled current factor) current = .ok (growStep factor current)) ∧
    (∀ current first second, first ≤ second → second ≤ maxAllocation → ∃ less more,
      nextCapacity current first factor = .ok less ∧ nextCapacity current second factor = .ok more ∧ less ≤ more) ∧
    ∀ current first second, first ≤ maxAllocation → second ≤ maxAllocation →
      (nextCapacity current first factor >>= fun capacity => nextCapacity capacity second factor) =
        nextCapacity current (max first second) factor := by
  refine ⟨fun current target => ⟨fun h => ?_, fun h => nextCapacity_of_lt h current factor⟩,
    fun current target h => ?_, fun current hcurrent product hproduct => ?_, fun current hcurrent => ?_,
    fun current first second hle h => ?_, fun current first second hfirst hsecond => ?_⟩
  · by_contra htarget
    cases (nextCapacity_of_le (Nat.not_lt.mp htarget) current factor).symm.trans h
  · obtain ⟨steps, hlast, hbefore⟩ := growTo_eq_iterate factor target current
    have henough := le_growTo factor target current
    have hmax := growTo_le factor h current
    rw [hlast] at henough hmax
    refine ⟨steps, by rw [nextCapacity_of_le h, hlast], fun hroom => ?_, henough, hbefore, fun hlt => ?_⟩
    · by_contra hsteps
      exact Nat.not_lt.mpr hroom (hbefore 0 (Nat.pos_of_ne_zero hsteps))
    · rwa [Nat.max_eq_right (Nat.le_of_lt (Nat.lt_of_lt_of_le hlt h))] at hmax
  · obtain ⟨next, hnext, hlt, hle, -⟩ := Word.growStep_eq hproduct hcurrent
    exact ⟨next, hnext, hlt, hle⟩
  · obtain ⟨next, hnext, -, -, rfl⟩ := Word.growStep_eq (scaled_holds current factor) hcurrent
    exact hnext
  · exact ⟨_, _, nextCapacity_of_le (Nat.le_trans hle h) .., nextCapacity_of_le h .., growTo_mono factor hle current⟩
  · rw [nextCapacity_of_le hfirst, ok_bind, nextCapacity_of_le hsecond, nextCapacity_of_le (Nat.max_le.mpr ⟨hfirst, hsecond⟩),
      growTo_growTo]

/-- A factor that is no number brings nothing: the way up is one byte at a time. -/
theorem nextCapacity_exact_without_factor :
    nextCapacity 5 (maxAllocation + 1) .nan = refuse (.outOfMemory (maxAllocation + 1) 5) ∧
    (∃ steps, nextCapacity 5 7 .nan = .ok ((growStep .nan)^[steps] 5) ∧ 7 ≤ (growStep .nan)^[steps] 5 ∧
      ∀ fewer < steps, (growStep .nan)^[fewer] 5 < 7) ∧
    nextCapacity 5 7 .nan = .ok 7 ∧
    (∃ next, Word.growStep (.infinity false) (maxAllocation - 1) = .ok next ∧ maxAllocation - 1 < next ∧
      next ≤ maxAllocation) ∧
    Word.growStep (scaled 5 .nan) 5 = .ok 6 ∧
    (nextCapacity 5 6 .nan >>= fun capacity => nextCapacity capacity 7 .nan) = nextCapacity 5 (max 6 7) .nan := by
  obtain ⟨hrefused, hchain, hstep, hwords, -, hstages⟩ := nextCapacity_exact .nan
  have hlast : maxAllocation - 1 < maxAllocation := by decide
  have hfirst : growStep .nan 5 = 6 := by decide
  have hsecond : growStep .nan 6 = 7 := by decide
  have hseven : growTo .nan 7 5 = 7 := by
    rw [growTo, if_pos (by decide), hfirst, growTo, if_pos (by decide), hsecond, growTo, if_neg (by decide)]
  obtain ⟨steps, hgrown, -, henough, hbefore, -⟩ := hchain 5 7 (by decide)
  refine ⟨(hrefused 5 _).mpr (Nat.lt_succ_self _), ⟨steps, hgrown, henough, hbefore⟩,
    by rw [nextCapacity_of_le (by decide), hseven], hstep _ hlast (.infinity false) trivial,
    (hwords 5 (by decide)).trans (by rw [hfirst]), hstages 5 6 7 (by decide) (by decide)⟩

end FrameLog
