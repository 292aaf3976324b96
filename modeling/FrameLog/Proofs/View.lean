import FrameLog.View

/-!
# Views are ranges

However often a view of an array is narrowed down, it shows a range of the array's elements and nothing else, and what it
turns down are just the ranges that it does not hold (`parts_exact`). Taking a part of a part is taking a part, and two
views of an array are the same where their ranges are, empty ones too.
-/

namespace FrameLog.View

variable {α : Type} {region : Region} {source : List α} {start length : Nat} {v w x : View α}

/-! ## What a view shows -/

/-- The view shows the `length` elements of `source` from `start` on. -/
structure Shows (source : List α) (start length : Nat) (v : View α) : Prop where
  within : start + length ≤ source.length
  length_eq : v.length = length
  length_elements : v.elements.length = length
  elements_eq : ∀ i < length, v.elements[i]? = source[start + i]?
  toList_eq : v.toList = v.elements
  get_eq : ∀ i < length, ∃ x, source[start + i]? = some x ∧ v.get i = .ok x
  get_refused : ∀ i, length ≤ i → v.get i = refuse (.outOfRange i length)

theorem get_of_le {i : Nat} (h : v.length ≤ i) : v.get i = refuse (.outOfRange i v.length) := if_pos h

theorem get_of_lt {i : Nat} {a : α} (h : i < v.length) (hsource : v.source[v.start + i]? = some a) : v.get i = .ok a := by
  rw [View.get, if_neg (Nat.not_le.mpr h), hsource]

theorem toList_eq_elements (v : View α) : v.toList = v.elements := by
  unfold toList isEmpty
  split
  · next hempty => rw [elements, of_decide_eq_true hempty, List.take_zero]
  · rfl

theorem shows_of_le (region : Region) (h : start + length ≤ source.length) :
    Shows source start length ⟨region, source, start, length⟩ where
  within := h
  length_eq := rfl
  length_elements := by
    rw [elements, List.length_take, List.length_drop]
    exact Nat.min_eq_left (Nat.le_sub_of_add_le' h)
  elements_eq i hi := by rw [elements, List.getElem?_take_of_lt hi, List.getElem?_drop]
  toList_eq := toList_eq_elements _
  get_eq i hi := by
    have hin : start + i < source.length := Nat.lt_of_lt_of_le (Nat.add_lt_add_left hi start) h
    have hsource := List.getElem?_eq_getElem hin
    exact ⟨_, hsource, get_of_lt hi hsource⟩
  get_refused i hi := get_of_le (v := ⟨region, source, start, length⟩) hi

/-! ## Parts of an array -/

/-- The views of an array: all of it, a range of it, and whatever is taken of such a view. -/
inductive Part (region : Region) (source : List α) : View α → Prop
  | whole : Part region source (whole region source)
  | ofRange (start length : Nat) {v : View α} (h : ofRange region source start length = .ok v) : Part region source v
  | slice (start length : Nat) {v w : View α} (hv : Part region source v) (h : v.slice start length = .ok w) :
      Part region source w
  | sliceFrom (start : Nat) {v w : View α} (hv : Part region source v) (h : v.sliceFrom start = .ok w) :
      Part region source w
  | clone {v : View α} (hv : Part region source v) : Part region source v.clone

theorem slice_eq_ok : v.slice start length = .ok w ↔
    (start ≤ v.length ∧ length ≤ v.length - start) ∧ w = { v with start := v.start + start, length := length } := by
  unfold slice refuse
  split
  · next h => simp [h, eq_comm]
  · next h => simp [h]

theorem slice_refused (h : ¬(start ≤ v.length ∧ length ≤ v.length - start)) :
    v.slice start length = refuse (.outOfRange (min (start + length) Word.limit) v.length) := if_neg h

theorem slice_isOk : (∃ w, v.slice start length = .ok w) ↔ start ≤ v.length ∧ length ≤ v.length - start :=
  ⟨fun ⟨_, h⟩ => (slice_eq_ok.mp h).1, fun h => ⟨_, slice_eq_ok.mpr ⟨h, rfl⟩⟩⟩

theorem sliceFrom_of_le (h : start ≤ v.length) : v.sliceFrom start = v.slice start (v.length - start) :=
  if_neg (Nat.not_lt.mpr h)

theorem sliceFrom_refused (h : v.length < start) : v.sliceFrom start = refuse (.outOfRange start v.length) := if_pos h

/-- What is taken of a view are elements that it shows. -/
theorem slice_within (hv : v.region = region ∧ v.source = source ∧ v.start + v.length ≤ source.length)
    (h : v.slice start length = .ok w) :
    w.region = region ∧ w.source = source ∧ w.start + w.length ≤ source.length := by
  obtain ⟨⟨hstart, hlength⟩, rfl⟩ := slice_eq_ok.mp h
  obtain ⟨hregion, hsource, hwithin⟩ := hv
  refine ⟨hregion, hsource, ?_⟩
  show v.start + start + length ≤ source.length
  omega

theorem Part.within (h : Part region source v) :
    v.region = region ∧ v.source = source ∧ v.start + v.length ≤ source.length := by
  have hwhole : (View.whole region source).start + source.length ≤ source.length := Nat.le_of_eq (Nat.zero_add _)
  induction h with
  | whole => exact ⟨rfl, rfl, hwhole⟩
  | ofRange _ _ h => exact slice_within ⟨rfl, rfl, hwhole⟩ h
  | slice _ _ _ h ih => exact slice_within ih h
  | @sliceFrom start v w _ h ih =>
      by_cases hstart : start ≤ v.length
      · rw [sliceFrom_of_le hstart] at h
        exact slice_within ih h
      · rw [sliceFrom_refused (Nat.not_le.mp hstart)] at h
        cases h
  | clone _ ih => exact ih

theorem Part.shows (h : Part region source v) : v.Shows source v.start v.length := by
  obtain ⟨-, rfl, hwithin⟩ := h.within
  exact shows_of_le v.region hwithin

/-- A part of a part is a part of the whole. -/
theorem slice_slice {a b c d : Nat} (h : v.slice a b = .ok w) :
    ((∃ x, w.slice c d = .ok x) ↔ c + d ≤ b) ∧ ∀ x, w.slice c d = .ok x → v.slice (a + c) d = .ok x := by
  obtain ⟨⟨ha, hb⟩, rfl⟩ := slice_eq_ok.mp h
  have hfits : c ≤ b ∧ d ≤ b - c ↔ c + d ≤ b := by omega
  refine ⟨slice_isOk.trans hfits, fun x hx => ?_⟩
  obtain ⟨hpart, rfl⟩ := slice_eq_ok.mp hx
  have hsum := hfits.mp hpart
  exact slice_eq_ok.mpr ⟨by omega, by rw [Nat.add_assoc]⟩

/-! ## Addresses -/

section
variable {base : Region → Nat} {size : Nat}

/-- Where a view begins if its allocation does at `base` and an element takes `size` bytes. -/
def address (base : Region → Nat) (size : Nat) (v : View α) : Nat := base v.region + v.start * size

/-- The two views begin at one address and are as long as one another. -/
def Identical (base : Region → Nat) (size : Nat) (v w : View α) : Prop :=
  v.address base size = w.address base size ∧ v.length = w.length

theorem identical_iff (hsize : 0 < size) (hregion : v.region = w.region) :
    v.Identical base size w ↔ v.start = w.start ∧ v.length = w.length := by
  rw [Identical, address, address, hregion, Nat.add_left_cancel_iff, Nat.mul_left_inj (Nat.ne_of_gt hsize)]

end

/-- Every part of an array shows a range of it. A part of that is taken just where it holds all the elements asked for,
wherever they would end, and shows them; taking the rest is taking a part that ends where the view does. What is taken of
a part might as well have been taken at once, and the parts of an array are the same just if they show the same range,
also where they are told apart by their addresses. -/
theorem parts_exact (hv : Part region source v) :
    v.Shows source v.start v.length ∧
    (∀ start length, (∃ w, v.slice start length = .ok w) ↔ start ≤ v.length ∧ length ≤ v.length - start) ∧
    (∀ start length w, v.slice start length = .ok w → w.Shows source (v.start + start) length) ∧
    (∀ start length, ¬(start ≤ v.length ∧ length ≤ v.length - start) →
      v.slice start length = refuse (.outOfRange (min (start + length) Word.limit) v.length)) ∧
    (∀ start ≤ v.length, v.sliceFrom start = v.slice start (v.length - start)) ∧
    (∀ start, v.length < start → v.sliceFrom start = refuse (.outOfRange start v.length)) ∧
    (∀ a b w, v.slice a b = .ok w → ∀ c d,
      ((∃ x, w.slice c d = .ok x) ↔ c + d ≤ b) ∧ ∀ x, w.slice c d = .ok x → v.slice (a + c) d = .ok x) ∧
    ∀ w, Part region source w → (v.Same w ↔ v.start = w.start ∧ v.length = w.length) ∧
      ∀ base size, 0 < size → (v.Identical base size w ↔ v.start = w.start ∧ v.length = w.length) := by
  refine ⟨hv.shows, fun _ _ => slice_isOk, fun start length w h => ?_, fun _ _ => slice_refused,
    fun _ => sliceFrom_of_le, fun _ => sliceFrom_refused, fun _ _ _ h _ _ => slice_slice h, fun w hw => ?_⟩
  · have hshows := (hv.slice start length h).shows
    obtain ⟨-, rfl⟩ := slice_eq_ok.mp h
    exact hshows
  · have hregion := hv.within.1.trans hw.within.1.symm
    exact ⟨and_iff_right hregion, fun _ _ hsize => identical_iff hsize hregion⟩

/-- There is an empty part where a part ends, and it is not the empty part where that begins; a sum that is no word does
not let anything pass. -/
theorem parts_exact_at_the_end :
    let source := [2, 3, 5, 7]
    let v : View Nat := ⟨.allocation 0, source, 1, 3⟩
    let w : View Nat := ⟨.allocation 0, source, 1, 0⟩
    Part (.allocation 0) source v ∧ Part (.allocation 0) source w ∧ v.Shows source 1 3 ∧ v.toList = [3, 5, 7] ∧
      (∃ x, v.slice 3 0 = .ok x ∧ x.Shows source 4 0 ∧ Part (.allocation 0) source x ∧ ¬x.Same w ∧
        ¬x.Identical (fun _ => 4096) 8 w) ∧
      v.slice 2 Word.limit = refuse (.outOfRange Word.limit 3) ∧
      v.sliceFrom 1 = v.slice 1 2 ∧ v.sliceFrom 4 = refuse (.outOfRange 4 3) ∧
      v.slice 2 1 = .ok ⟨.allocation 0, source, 3, 1⟩ := by
  intro source v w
  have hv : Part (.allocation 0) source v := .ofRange 1 3 rfl
  have hw : Part (.allocation 0) source w := .slice 0 0 hv rfl
  obtain ⟨hshows, hok, hpart, hrefused, hrest, hrestRefused, hnested, -⟩ := parts_exact hv
  obtain ⟨x, hx⟩ := (hok 3 0).mpr (by decide)
  have hend := hpart 3 0 x hx
  obtain ⟨-, rfl⟩ := slice_eq_ok.mp hx
  obtain ⟨-, -, -, -, -, -, -, hsame⟩ := parts_exact (hv.slice 3 0 hx)
  obtain ⟨hsame, hidentical⟩ := hsame w hw
  refine ⟨hv, hw, hshows, by decide, ⟨_, hx, hend, hv.slice 3 0 hx, ?_, ?_⟩, hrefused 2 Word.limit (by decide),
    hrest 1 (by decide), hrestRefused 4 (by decide), (hnested 1 2 _ rfl 1 1).2 _ rfl⟩
  · rw [hsame]
    decide
  · rw [hidentical _ 8 (by decide)]
    decide

end FrameLog.View
