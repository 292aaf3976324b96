import FrameLog.Json.Value

/-! Readers: functions on a text that take something from its front and leave less than there was. -/
namespace FrameLog.Json

/-- A value read from the front of `input`, and what follows it. -/
structure Consumed (α : Type) (input : List Char) where
  value : α
  rest : List Char
  shorter : rest.length < input.length

abbrev Reader (α : Type) := (input : List Char) → Except Problem (Consumed α input)

namespace Consumed

variable {α β : Type} {input later : List Char}

def map (f : α → β) (c : Consumed α input) : Consumed β input := ⟨f c.value, c.rest, c.shorter⟩

/-- What is read from a later part of a text is read from the text. -/
def widen (h : later.length ≤ input.length) (c : Consumed α later) : Consumed α input :=
  ⟨c.value, c.rest, Nat.lt_of_lt_of_le c.shorter h⟩

/-- One character is read. -/
def one (value : α) {c : Char} {rest : List Char} : Consumed α (c :: rest) := ⟨value, rest, Nat.lt_succ_self _⟩

/-- What is read behind a character. -/
def behind {c : Char} {rest : List Char} (x : Consumed α rest) : Consumed α (c :: rest) := x.widen (Nat.le_succ _)

end Consumed

/-- Space between the parts of a JSON text. -/
def isSpace (c : Char) : Bool := c = ' ' || c = '\t' || c = '\n' || c = '\r'

def skipSpace (input : List Char) : List Char := input.dropWhile isSpace

theorem length_skipSpace_le (input : List Char) : (skipSpace input).length ≤ input.length :=
  (List.dropWhile_sublist _).length_le

theorem length_lt_of_skipSpace {input rest : List Char} {c : Char} (h : skipSpace input = c :: rest) :
    rest.length < input.length := by
  have := length_skipSpace_le input
  rw [h] at this
  exact this

/-- The rest of a word whose first character has been seen. -/
def readWord {α : Type} (value : α) (word : List Char) : Reader α :=
  fun input =>
    match input, word with
    | [], _ => .error .truncated
    | c :: _, [w] => if c = w then .ok (.one value) else .error .malformed
    | c :: rest, w :: word =>
      if c = w then (readWord value word rest).map .behind else .error .malformed
    | _ :: _, [] => .error .malformed

end FrameLog.Json
