import FrameLog.Binary.Basic

/-!
How an operation can fail: a refusal is an answer to its caller, a fault would be a defect of the operation
itself (arithmetic that leaves 64 bits, an access past the end).
-/
namespace FrameLog

inductive BadArgument
  | zeroBucketSize
  | capacityPastLimit (capacity : Nat)
  | factorNotAboveOne (factor : Binary)
  | dataPastBuffer (length capacity : Nat)
  | emptyRange
  | destinationTooSmall (room needed : Nat)
deriving DecidableEq, Repr

inductive Refusal
  | outOfRange (index length : Nat)
  | badArgument (reason : BadArgument)
  /-- The buffer is full and cannot, or may not, grow. -/
  | outOfMemory (required capacity : Nat)
  /-- A frame or a bucket does not fit the 32-bit length. -/
  | frameTooLarge (size : Nat)
  /-- A length prefix is negative, cut off, or points past the data. -/
  | corruptFrame (offset : Nat)
  | disposed
deriving DecidableEq, Repr

/-- How a computation on sizes and offsets can go wrong. -/
inductive Fault
  | overflow
  | underflow
  | narrowing
  | outOfBounds
  | divisionByZero
  | emptyTable
  | shrunkBucket
  /-- A list is reserved for more bytes than can be addressed. -/
  | capacityOverflow
  /-- A list is reserved for more bytes than there are. -/
  | allocationFailed
deriving DecidableEq, Repr

inductive Failure
  | refused (refusal : Refusal)
  | fault (fault : Fault)
deriving DecidableEq, Repr

abbrev Outcome := Except Failure

def refuse {α : Type} (r : Refusal) : Outcome α := .error (.refused r)

def fail {α : Type} (f : Fault) : Outcome α := .error (.fault f)

/-- Goes on where `p` holds and is turned down where it does not. -/
def require (p : Prop) [Decidable p] (r : Refusal) : Outcome Unit := if p then .ok () else refuse r

/-- Goes on where `p` holds; that it does is for the operation to see to. -/
def check (p : Prop) [Decidable p] (f : Fault) : Outcome Unit := if p then .ok () else fail f

/-- A computation that changes a state; what it has changed stays changed when it fails. -/
abbrev Action (σ α : Type) := EStateM Failure σ α

instance {σ : Type} : MonadLift Outcome (EStateM Failure σ) where
  monadLift x s :=
    match x with
    | .ok a => .ok a s
    | .error e => .error e s

section
variable {α β σ ε : Type} {p : Prop} [Decidable p]

theorem bind_eq_ok {x : Except ε α} {f : α → Except ε β} {b : β} :
    (x >>= f) = .ok b ↔ ∃ a, x = .ok a ∧ f a = .ok b := by
  cases x <;> simp [bind, Except.bind]

theorem bind_eq_error {x : Except ε α} {f : α → Except ε β} {e : ε} :
    (x >>= f) = .error e ↔ x = .error e ∨ ∃ a, x = .ok a ∧ f a = .error e := by
  cases x <;> simp [bind, Except.bind]

theorem map_eq_ok {x : Except ε α} {f : α → β} {b : β} : x.map f = .ok b ↔ ∃ a, x = .ok a ∧ f a = b := by
  cases x <;> simp [Except.map]

@[simp] theorem ok_mapError {δ : Type} (a : α) (f : ε → δ) : (Except.ok a).mapError f = .ok a := rfl

@[simp] theorem error_mapError {δ : Type} (e : ε) (f : ε → δ) : (Except.error e : Except ε α).mapError f = .error (f e) :=
  rfl

theorem mapError_eq_ok {δ : Type} {x : Except ε α} {f : ε → δ} {a : α} : x.mapError f = .ok a ↔ x = .ok a := by
  cases x <;> simp

theorem mapError_eq_error {δ : Type} {x : Except ε α} {f : ε → δ} {d : δ} :
    x.mapError f = .error d ↔ ∃ e, x = .error e ∧ f e = d := by
  cases x <;> simp

@[simp] theorem ok_bind (a : α) (f : α → Except ε β) : (Except.ok a >>= f) = f a := rfl

@[simp] theorem error_bind (e : ε) (f : α → Except ε β) : (Except.error e >>= f) = .error e := rfl

@[simp] theorem refuse_bind (r : Refusal) (f : α → Outcome β) : (refuse r >>= f) = refuse r := rfl

@[simp] theorem pure_eq_ok (a : α) : (pure a : Except ε α) = .ok a := rfl

@[simp] theorem require_eq_ok {r : Refusal} {u : Unit} : require p r = .ok u ↔ p := by
  unfold require refuse
  split <;> simp_all

@[simp] theorem check_eq_ok {f : Fault} {u : Unit} : check p f = .ok u ↔ p := by
  unfold check fail
  split <;> simp_all

theorem require_pos {r : Refusal} (h : p) : require p r = .ok () := if_pos h

theorem require_neg {r : Refusal} (h : ¬p) : require p r = refuse r := if_neg h

theorem check_pos {f : Fault} (h : p) : check p f = .ok () := if_pos h

theorem require_ne_fail {r : Refusal} {f : Fault} : require p r ≠ fail f := by
  unfold require
  split <;> exact nofun

theorem bind_ne_fail {f : Fault} {x : Outcome α} {g : α → Outcome β} (hx : x ≠ fail f)
    (hg : ∀ a, x = .ok a → g a ≠ fail f) : (x >>= g) ≠ fail f := by
  cases x with
  | error e =>
      intro h
      cases h
      exact hx rfl
  | ok a => exact hg a rfl

/-! An action runs its steps one after another, each on the state that the last one left. -/

/-- The state that an action leaves, also where it fails. -/
def Action.after (x : Action σ α) (s : σ) : σ :=
  match x s with
  | .ok _ t | .error _ t => t

theorem Action.after_ok {x : Action σ α} {a : α} {s t : σ} (h : x s = .ok a t) : x.after s = t := by
  rw [Action.after, h]

theorem Action.after_error {x : Action σ α} {e : Failure} {s t : σ} (h : x s = .error e t) : x.after s = t := by
  rw [Action.after, h]

@[simp] theorem Action.pure_apply (a : α) (s : σ) : (pure a : Action σ α) s = .ok a s := rfl

@[simp] theorem Action.get_apply (s : σ) : (get : Action σ σ) s = .ok s s := rfl

@[simp] theorem Action.set_apply (t s : σ) : (set t : Action σ PUnit) s = .ok ⟨⟩ t := rfl

@[simp] theorem Action.modify_apply (f : σ → σ) (s : σ) : (modify f : Action σ PUnit) s = .ok ⟨⟩ (f s) := rfl

@[simp] theorem Action.lift_ok_apply (a : α) (s : σ) : (liftM (.ok a : Outcome α) : Action σ α) s = .ok a s := rfl

@[simp] theorem Action.lift_error_apply (e : Failure) (s : σ) :
    (liftM (.error e : Outcome α) : Action σ α) s = .error e s := rfl

@[simp] theorem Action.lift_refuse_apply (r : Refusal) (s : σ) :
    (liftM (refuse r : Outcome α) : Action σ α) s = .error (.refused r) s := rfl

theorem Action.map_apply (f : α → β) (x : Action σ α) (s : σ) :
    (f <$> x) s = match x s with
      | .ok a t => .ok (f a) t
      | .error e t => .error e t := by
  simp only [Functor.map, EStateM.map]
  cases x s <;> rfl

theorem Action.bind_apply (x : Action σ α) (f : α → Action σ β) (s : σ) :
    (x >>= f) s = match x s with
      | .ok a t => f a t
      | .error e t => .error e t := by
  simp only [bind, EStateM.bind]
  cases x s <;> rfl

end

/-- Says whether the allocator grants a request for that many bytes. -/
abbrev Allocator := Nat → Bool

def maxAllocation : Nat := 0x7FFFFFFFFFFFFFFF

end FrameLog
