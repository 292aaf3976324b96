import FrameLog.Word

/-!
Windows on memory. A view is a range of the elements of one allocation and is compared by place and length,
never by content; a mutable view writes through to the array it was made of.
-/
namespace FrameLog

/-- The allocation a view looks into; `nowhere` holds no array. -/
inductive Region
  | nowhere
  | allocation (id : Nat)
deriving DecidableEq, Repr

/-- The `length` elements of `source` from `start` on. -/
structure View (α : Type) where
  region : Region
  source : List α
  start : Nat
  length : Nat
deriving Repr

namespace View

variable {α : Type}

def empty : View α := ⟨.nowhere, [], 0, 0⟩

def whole (region : Region) (source : List α) : View α := ⟨region, source, 0, source.length⟩

def isEmpty (v : View α) : Bool := v.length = 0

/-- The elements in their order, as a loop over the view goes through them. -/
def elements (v : View α) : List α := (v.source.drop v.start).take v.length

/-- The elements in a list of their own, which is not made where there are none. -/
def toList (v : View α) : List α := if v.isEmpty then [] else v.elements

protected def get (v : View α) (i : Nat) : Outcome α :=
  if v.length ≤ i then refuse (.outOfRange i v.length)
  else
    match v.source[v.start + i]? with
    | some x => .ok x
    | none => fail .outOfBounds

def slice (v : View α) (start length : Nat) : Outcome (View α) :=
  if start ≤ v.length ∧ length ≤ v.length - start then .ok { v with start := v.start + start, length }
  else refuse (.outOfRange (Word.saturatingAdd start length) v.length)

def sliceFrom (v : View α) (start : Nat) : Outcome (View α) :=
  if v.length < start then refuse (.outOfRange start v.length) else v.slice start (v.length - start)

def ofRange (region : Region) (source : List α) (start length : Nat) : Outcome (View α) :=
  (whole region source).slice start length

theorem ofRange_of_le {region : Region} {source : List α} {start length : Nat} (h : start + length ≤ source.length) :
    ofRange region source start length = .ok ⟨region, source, start, length⟩ := by
  have hfit : start ≤ source.length ∧ length ≤ source.length - start := by omega
  rw [ofRange, slice, whole, if_pos hfit, Nat.zero_add]

def Same (v w : View α) : Prop := v.region = w.region ∧ v.start = w.start ∧ v.length = w.length

instance (v w : View α) : Decidable (v.Same w) := inferInstanceAs (Decidable (_ ∧ _ ∧ _))

/-- A copy of a view looks at the same place. -/
def clone (v : View α) : View α := v

def description (element : String) (v : View α) : String := s!"MemoryView<{element}>[{v.length}]"

end View

/-- The `length` elements of `array` from `start` on, writable. -/
structure MutView (α : Type) where
  array : List α
  start : Nat
  length : Nat
deriving Repr

namespace MutView

variable {α : Type}

def whole (array : List α) : MutView α := ⟨array, 0, array.length⟩

def ofRange (array : List α) (start length : Nat) : Outcome (MutView α) :=
  if start ≤ array.length ∧ length ≤ array.length - start then .ok ⟨array, start, length⟩
  else refuse (.outOfRange (Word.saturatingAdd start length) array.length)

def isEmpty (v : MutView α) : Bool := v.length = 0

def description (element : String) (v : MutView α) : String := s!"MemoryViewMut<{element}>[{v.length}]"

def view (region : Region) (v : MutView α) : View α := ⟨region, v.array, v.start, v.length⟩

protected def get (v : MutView α) (i : Nat) : Outcome α :=
  if v.length ≤ i then refuse (.outOfRange i v.length)
  else
    match v.array[v.start + i]? with
    | some x => .ok x
    | none => fail .outOfBounds

protected def set (i : Nat) (x : α) : Action (MutView α) Unit := do
  let v ← get
  let _ ← v.get i
  set { v with array := v.array.set (v.start + i) x }

def overwrite (v : MutView α) (xs : List α) : MutView α :=
  { v with array := v.array.take v.start ++ xs ++ v.array.drop (v.start + xs.length) }

def fill (x : α) : Action (MutView α) Unit :=
  modify fun v => v.overwrite (List.replicate v.length x)

end MutView

namespace View

variable {α : Type}

/-- Copies all elements to the beginning of the destination if they fit there, else nothing. -/
def tryCopyTo (v : View α) : Action (MutView α) Bool := do
  let target ← get
  if target.length < v.length then pure false
  else
    set (target.overwrite v.elements)
    pure true

def copyTo (v : View α) : Action (MutView α) Unit := do
  let copied ← v.tryCopyTo
  require copied (.badArgument (.destinationTooSmall (← get).length v.length))

end View
end FrameLog
