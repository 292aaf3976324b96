import FrameLog.Prefix
import FrameLog.View

/-! A position in framed data, on the length prefix of a frame. -/
namespace FrameLog

structure Cursor where
  data : Bytes
  offset : Nat

namespace Cursor

def header (c : Cursor) : Outcome Int :=
  match c.data.drop c.offset with
  | x₀ :: x₁ :: x₂ :: x₃ :: _ => .ok (Prefix.decode x₀ x₁ x₂ x₃)
  | _ => fail .outOfBounds

/-- The payload length of the frame under the cursor: its prefix is there and counts no more bytes than follow. -/
def frameLength (c : Cursor) : Outcome Nat := do
  require (Prefix.size ≤ c.data.length - c.offset) (.corruptFrame c.offset)
  let n ← c.header
  require (0 ≤ n) (.corruptFrame c.offset)
  let stop ← Word.add (← Word.add c.offset Prefix.size) n.toNat
  require (stop ≤ c.data.length) (.corruptFrame c.offset)
  return n.toNat

def peek (region : Region) (c : Cursor) : Outcome (View UInt8) := do
  let length ← c.frameLength
  View.ofRange region c.data (← Word.add c.offset Prefix.size) length

def peekWhole (region : Region) (c : Cursor) : Outcome (View UInt8) := do
  let length ← c.frameLength
  View.ofRange region c.data c.offset (← Word.add Prefix.size length)

def advance (c : Cursor) (length : Nat) : Outcome Cursor := do
  return { c with offset := ← Word.add c.offset (← Word.add Prefix.size length) }

def skip (c : Cursor) : Outcome Cursor := do
  c.advance (← c.frameLength)

def skipMany : Nat → Cursor → Outcome Cursor
  | 0, c => .ok c
  | n + 1, c => do skipMany n (← c.skip)

def next (region : Region) (c : Cursor) : Outcome (View UInt8 × Cursor) := do
  let frame ← c.peek region
  return (frame, ← c.advance frame.length)

theorem advance_eq_ok {c d : Cursor} {n : Nat} (h : c.advance n = .ok d) :
    d = { c with offset := c.offset + (Prefix.size + n) } := by
  simp only [advance, bind_eq_ok, Word.add_eq_ok] at h
  obtain ⟨size, ⟨_, rfl⟩, stop, ⟨_, rfl⟩, h⟩ := h
  cases h
  rfl

/-- Skipping a frame moves the cursor forward over the same data. -/
theorem skip_eq_ok {c d : Cursor} (h : c.skip = .ok d) : d.data = c.data ∧ c.offset < d.offset := by
  obtain ⟨n, _, h⟩ := bind_eq_ok.1 h
  rw [advance_eq_ok h]
  exact ⟨rfl, Nat.lt_add_of_pos_right (Nat.lt_of_lt_of_le (by decide) (Nat.le_add_right Prefix.size n))⟩

end Cursor
end FrameLog
