import FrameLog.Proofs.View

/-!
# Writing through a view

Whatever is copied into a writable view or written through it, one operation after another, the array around it stays as
it is (`copies_exact`). A copy is made as a whole or not at all, and the view is then as good as before.
-/

namespace FrameLog.MutView

variable {α : Type} {array : List α} {start length i : Nat} {x : α} {xs : List α} {source : View α} {v w : MutView α}

/-! ## Operations and their runs -/

inductive Operation (α : Type)
  | copyTo (source : View α)
  | tryCopyTo (source : View α)
  | set (i : Nat) (x : α)
  | fill (x : α)

def Operation.perform (w : MutView α) : Operation α → MutView α
  | .copyTo source => source.copyTo.after w
  | .tryCopyTo source => source.tryCopyTo.after w
  | .set i x => (MutView.set i x).after w
  | .fill x => (MutView.fill x).after w

def run (operations : List (Operation α)) (w : MutView α) : MutView α := operations.foldl Operation.perform w

/-- The view writes to the `length` places from `start` on, and what is around them is as in `array`. -/
structure Covers (array : List α) (start length : Nat) (w : MutView α) : Prop where
  start_eq : w.start = start
  length_eq : w.length = length
  within : start + length ≤ array.length
  length_array : w.array.length = array.length
  outside : ∀ p, p < start ∨ start + length ≤ p → w.array[p]? = array[p]?

/-- In `u` all that `source` shows stands where `w` begins, and the rest is as in `w`. -/
structure Copied (source : View α) (w u : MutView α) : Prop where
  start_eq : u.start = w.start
  length_eq : u.length = w.length
  array_eq : ∀ p, u.array[p]? =
    if w.start ≤ p ∧ p < w.start + source.length then source.source[source.start + (p - w.start)]? else w.array[p]?

/-! ## Writes to the array -/

theorem getElem?_overwrite (h : w.start ≤ w.array.length) (xs : List α) (p : Nat) :
    (w.overwrite xs).array[p]? =
      if w.start ≤ p ∧ p < w.start + xs.length then xs[p - w.start]? else w.array[p]? := by
  have hfront : (w.array.take w.start).length = w.start := by
    rw [List.length_take]
    exact Nat.min_eq_left h
  rw [overwrite, List.append_assoc]
  by_cases hbefore : p < w.start
  · rw [List.getElem?_append_left (hfront.symm ▸ hbefore), List.getElem?_take_of_lt hbefore,
      if_neg fun hin => Nat.not_le.mpr hbefore hin.1]
  · have hfrom := Nat.not_lt.mp hbefore
    rw [List.getElem?_append_right (hfront.symm ▸ hfrom), hfront]
    by_cases hwithin : p < w.start + xs.length
    · rw [List.getElem?_append_left (by omega), if_pos ⟨hfrom, hwithin⟩]
    · have hsame : w.start + xs.length + (p - w.start - xs.length) = p := by omega
      rw [List.getElem?_append_right (by omega), List.getElem?_drop, hsame, if_neg fun hin => hwithin hin.2]

theorem Covers.overwrite (h : Covers array start length w) (hxs : xs.length ≤ length) :
    Covers array start length (w.overwrite xs) := by
  obtain ⟨rfl, rfl, hwithin, hlength, houtside⟩ := h
  refine ⟨rfl, rfl, hwithin, ?_, fun p hp => ?_⟩
  · simp only [MutView.overwrite, List.length_append, List.length_take, List.length_drop]
    omega
  · rw [getElem?_overwrite (by omega), if_neg (by omega)]
    exact houtside p hp

theorem Covers.set (h : Covers array start length w) (hi : i < length) (x : α) :
    Covers array start length { w with array := w.array.set (w.start + i) x } := by
  obtain ⟨rfl, rfl, hwithin, hlength, houtside⟩ := h
  refine ⟨rfl, rfl, hwithin, List.length_set.trans hlength, fun p hp => ?_⟩
  rw [List.getElem?_set_ne (by omega)]
  exact houtside p hp

/-! ## What the operations do -/

theorem ofRange_eq_ok : ofRange array start length = .ok v ↔
    (start ≤ array.length ∧ length ≤ array.length - start) ∧ v = ⟨array, start, length⟩ := by
  unfold ofRange refuse
  split
  · next h => simp [h, eq_comm]
  · next h => simp [h]

theorem ofRange_covers (h : ofRange array start length = .ok v) : Covers array start length v := by
  obtain ⟨⟨hstart, hlength⟩, rfl⟩ := ofRange_eq_ok.mp h
  exact ⟨rfl, rfl, by omega, rfl, fun _ _ => rfl⟩

/-- A writable view is read the way that a view of its array is. -/
theorem get_eq_view (w : MutView α) (region : Region) (i : Nat) : w.get i = (w.view region).get i := rfl

theorem Covers.shows (h : Covers array start length w) (region : Region) : (w.view region).Shows w.array start length := by
  obtain ⟨rfl, rfl, hwithin, hlength, -⟩ := h
  exact View.shows_of_le region (hlength ▸ hwithin)

theorem tryCopyTo_apply (source : View α) (w : MutView α) :
    source.tryCopyTo w = if w.length < source.length then .ok false w else .ok true (w.overwrite source.elements) := by
  by_cases h : w.length < source.length
  · simp [View.tryCopyTo, Action.bind_apply, h]
  · simp [View.tryCopyTo, Action.bind_apply, Action.map_apply, h]

theorem copyTo_apply (source : View α) (w : MutView α) :
    source.copyTo w =
      if w.length < source.length then
        .error (.refused (.badArgument (.destinationTooSmall w.length source.length))) w
      else .ok ⟨⟩ (w.overwrite source.elements) := by
  rw [View.copyTo, Action.bind_apply, tryCopyTo_apply]
  by_cases h : w.length < source.length
  · simp [Action.bind_apply, require, h]
  · simp [Action.bind_apply, require, h]

theorem set_apply_of_le (h : w.length ≤ i) (x : α) :
    MutView.set i x w = .error (.refused (.outOfRange i w.length)) w := by
  simp [MutView.set, Action.bind_apply, MutView.get, h]

theorem Covers.set_apply (h : Covers array start length w) (hi : i < length) (x : α) :
    MutView.set i x w = .ok ⟨⟩ { w with array := w.array.set (w.start + i) x } := by
  obtain ⟨y, -, hget⟩ := (h.shows .nowhere).get_eq i hi
  rw [← get_eq_view] at hget
  simp [MutView.set, Action.bind_apply, hget]

theorem copied_overwrite {region : Region} {whole : List α} (hsource : View.Part region whole source)
    (h : w.start ≤ w.array.length) : Copied source w (w.overwrite source.elements) := by
  refine ⟨rfl, rfl, fun p => ?_⟩
  have hshows := hsource.shows
  obtain ⟨-, rfl, -⟩ := hsource.within
  rw [getElem?_overwrite h, hshows.length_elements]
  split
  · next hin => exact hshows.elements_eq _ (by omega)
  · rfl

/-! ## Runs -/

/-- The two ways to copy leave the same behind. -/
theorem copyTo_after (source : View α) (w : MutView α) : source.copyTo.after w = source.tryCopyTo.after w := by
  rw [Action.after, Action.after, copyTo_apply, tryCopyTo_apply]
  by_cases h : w.length < source.length
  · rw [if_pos h, if_pos h]
  · rw [if_neg h, if_neg h]

theorem Covers.tryCopyTo (h : Covers array start length w) (source : View α) :
    Covers array start length (source.tryCopyTo.after w) := by
  rw [Action.after, tryCopyTo_apply]
  by_cases hlarge : w.length < source.length
  · rwa [if_pos hlarge]
  · have hfits : source.length ≤ length := h.length_eq ▸ Nat.not_lt.mp hlarge
    rw [if_neg hlarge]
    exact h.overwrite (Nat.le_trans (List.length_take_le ..) hfits)

theorem Covers.perform (h : Covers array start length w) (operation : Operation α) :
    Covers array start length (operation.perform w) := by
  cases operation with
  | copyTo source =>
      rw [Operation.perform, copyTo_after]
      exact h.tryCopyTo source
  | tryCopyTo source => exact h.tryCopyTo source
  | set i x =>
      by_cases hi : i < length
      · rw [Operation.perform, Action.after_ok (h.set_apply hi x)]
        exact h.set hi x
      · rw [Operation.perform, Action.after_error (set_apply_of_le (h.length_eq ▸ Nat.not_lt.mp hi) x)]
        exact h
  | fill x => exact h.overwrite (Nat.le_of_eq (List.length_replicate.trans h.length_eq))

theorem Covers.run (h : Covers array start length w) (operations : List (Operation α)) :
    Covers array start length (run operations w) := by
  induction operations generalizing w with
  | nil => exact h
  | cons first rest ih => exact ih (h.perform first)

/-- A writable view is made just of a range that the array has. Whatever has been done through it, the array around it is
as it was, the view shows its range as that is now, and an access is let through just where there is a place for it, which
is then the one that is read and the only one that is written. A copy of any part of any array is made just where there is
room for all of it; it then takes up the beginning of the range, and changes nothing otherwise. -/
theorem copies_exact (array : List α) (start length : Nat) :
    ((∃ v, ofRange array start length = .ok v) ↔ start ≤ array.length ∧ length ≤ array.length - start) ∧
    ∀ v, ofRange array start length = .ok v → ∀ operations w, run operations v = w →
      Covers array start length w ∧
      (∀ region, (w.view region).Shows w.array start length) ∧
      (∀ i, length ≤ i → w.get i = refuse (.outOfRange i length) ∧
        ∀ x, MutView.set i x w = .error (.refused (.outOfRange i length)) w) ∧
      (∀ i < length, (∃ x, w.array[start + i]? = some x ∧ w.get i = .ok x) ∧
        ∀ x, MutView.set i x w = .ok ⟨⟩ { w with array := w.array.set (start + i) x }) ∧
      ∀ region whole source, View.Part region whole source →
        (source.length ≤ length → ∃ u, source.tryCopyTo w = .ok true u ∧ source.copyTo w = .ok ⟨⟩ u ∧
          Copied source w u) ∧
        (length < source.length → source.tryCopyTo w = .ok false w ∧
          source.copyTo w = .error (.refused (.badArgument (.destinationTooSmall length source.length))) w) := by
  refine ⟨⟨fun ⟨_, h⟩ => (ofRange_eq_ok.mp h).1, fun h => ⟨_, ofRange_eq_ok.mpr ⟨h, rfl⟩⟩⟩, ?_⟩
  intro v hv operations w hrun
  have hcovers : Covers array start length w := hrun ▸ (ofRange_covers hv).run operations
  refine ⟨hcovers, hcovers.shows, fun i hi => ?_, fun i hi => ?_,
    fun region whole source hsource => ⟨fun hfits => ?_, fun hlarge => ?_⟩⟩
  · have hout : w.length ≤ i := hcovers.length_eq ▸ hi
    refine ⟨(hcovers.shows .nowhere).get_refused i hi, fun x => ?_⟩
    rw [set_apply_of_le hout, hcovers.length_eq]
  · refine ⟨(hcovers.shows .nowhere).get_eq i hi, fun x => ?_⟩
    rw [hcovers.set_apply hi, hcovers.start_eq]
  · have hroom : ¬w.length < source.length := Nat.not_lt.mpr (hcovers.length_eq ▸ hfits)
    have hstart : w.start ≤ w.array.length := by
      rw [hcovers.start_eq, hcovers.length_array]
      exact Nat.le_trans (Nat.le_add_right ..) hcovers.within
    refine ⟨w.overwrite source.elements, ?_, ?_, copied_overwrite hsource hstart⟩
    · rw [tryCopyTo_apply, if_neg hroom]
    · rw [copyTo_apply, if_neg hroom]
  · rw [tryCopyTo_apply, copyTo_apply, hcovers.length_eq, if_pos hlarge, if_pos hlarge]
    exact ⟨rfl, rfl⟩

/-- A copy that fits, a write behind it, a copy that is too large and a write past the end. -/
theorem copies_exact_turned_down :
    let zeros := [0, 0, 0, 0, 0]
    let small : View Nat := ⟨.allocation 1, [6, 7, 8, 9, 10], 1, 2⟩
    let large : View Nat := ⟨.allocation 1, [6, 7, 8, 9, 10], 0, 4⟩
    let v : MutView Nat := ⟨zeros, 1, 3⟩
    let w : MutView Nat := ⟨[0, 7, 8, 5, 0], 1, 3⟩
    ofRange zeros 1 3 = .ok v ∧ run [.copyTo small, .set 2 5, .copyTo large, .set 3 1] v = w ∧
      (∀ length, 4 < length → ∀ v, ofRange zeros 1 length ≠ .ok v) ∧
      Covers zeros 1 3 w ∧ (w.view (.allocation 0)).Shows [0, 7, 8, 5, 0] 1 3 ∧
      w.get 3 = refuse (.outOfRange 3 3) ∧ MutView.set 0 4 w = .ok ⟨⟩ ⟨[0, 4, 8, 5, 0], 1, 3⟩ ∧
      (∃ u, small.tryCopyTo w = .ok true u ∧ small.copyTo w = .ok ⟨⟩ u ∧ Copied small w u) ∧
      large.tryCopyTo w = .ok false w ∧
      large.copyTo w = .error (.refused (.badArgument (.destinationTooSmall 3 4))) w := by
  intro zeros small large v w
  have hv : ofRange zeros 1 3 = .ok v := rfl
  have hrun : run [.copyTo small, .set 2 5, .copyTo large, .set 3 1] v = w := rfl
  have hsmall : View.Part (.allocation 1) [6, 7, 8, 9, 10] small := .slice 1 2 .whole rfl
  have hlarge : View.Part (.allocation 1) [6, 7, 8, 9, 10] large := .slice 0 4 .whole rfl
  obtain ⟨hcovers, hshows, hout, hin, hcopy⟩ := (copies_exact zeros 1 3).2 v hv _ w hrun
  obtain ⟨htry, hcopyTo⟩ := (hcopy _ _ large hlarge).2 (by decide)
  refine ⟨hv, hrun, fun length hlength v hv => ?_, hcovers, hshows _, (hout 3 (by decide)).1, (hin 0 (by decide)).2 4,
    (hcopy _ _ small hsmall).1 (by decide), htry, hcopyTo⟩
  exact Nat.not_le.mpr hlength ((copies_exact zeros 1 length).1.mp ⟨v, hv⟩).2

end FrameLog.MutView
