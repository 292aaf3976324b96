import FrameLog.Failure

/-! Arithmetic on unsigned 64-bit sizes; a result that does not fit is a fault. -/
namespace FrameLog.Word

def limit : Nat := 0xFFFFFFFFFFFFFFFF

def add (a b : Nat) : Outcome Nat := do
  check (a + b ≤ limit) .overflow
  return a + b

def sub (a b : Nat) : Outcome Nat := do
  check (b ≤ a) .underflow
  return a - b

def mul (a b : Nat) : Outcome Nat := do
  check (a * b ≤ limit) .overflow
  return a * b

def div (a b : Nat) : Outcome Nat := do
  check (b ≠ 0) .divisionByZero
  return a / b

def mod (a b : Nat) : Outcome Nat := do
  check (b ≠ 0) .divisionByZero
  return a % b

/-- The sum, cut off at the largest word. -/
def saturatingAdd (a b : Nat) : Nat := min (a + b) limit

def toSigned32 (n : Nat) : Outcome Int := do
  check (n < 0x80000000) .narrowing
  return n

def toUnsigned32 (n : Nat) : Outcome Nat := do
  check (n < 0x100000000) .narrowing
  return n

variable {a b c : Nat}

theorem add_eq_ok : add a b = .ok c ↔ a + b ≤ limit ∧ a + b = c := by
  simp [add, bind_eq_ok, pure, Except.pure]

theorem sub_eq_ok : sub a b = .ok c ↔ b ≤ a ∧ a - b = c := by
  simp [sub, bind_eq_ok, pure, Except.pure]

theorem mul_eq_ok : mul a b = .ok c ↔ a * b ≤ limit ∧ a * b = c := by
  simp [mul, bind_eq_ok, pure, Except.pure]

theorem div_eq_ok : div a b = .ok c ↔ b ≠ 0 ∧ a / b = c := by
  simp [div, bind_eq_ok, pure, Except.pure]

theorem mod_eq_ok : mod a b = .ok c ↔ b ≠ 0 ∧ a % b = c := by
  simp [mod, bind_eq_ok, pure, Except.pure]

theorem toSigned32_eq_ok {n : Int} : toSigned32 a = .ok n ↔ a < 0x80000000 ∧ a = n := by
  simp [toSigned32, bind_eq_ok]

theorem toUnsigned32_eq_ok : toUnsigned32 a = .ok c ↔ a < 0x100000000 ∧ a = c := by
  simp [toUnsigned32, bind_eq_ok]

end FrameLog.Word
