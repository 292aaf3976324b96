import FrameLog.Json.Consumed

/-! Strings in quotes: reading them, passing over them, and writing them. -/
namespace FrameLog.Json

/-- Characters that stand for themselves inside quotes. -/
def isPlain (c : Char) : Bool := c ≠ '"' && c ≠ '\\' && ' ' ≤ c

theorem length_dropWhile_le (p : Char → Bool) (s : List Char) : (s.dropWhile p).length ≤ s.length :=
  (List.dropWhile_sublist p).length_le

theorem length_lt_of_dropWhile {p : Char → Bool} {s rest : List Char} {c : Char} (h : s.dropWhile p = c :: rest) :
    rest.length < s.length := by
  have := length_dropWhile_le p s
  rw [h] at this
  exact this

def hexValue? (c : Char) : Option Nat :=
  if c.isDigit then some (c.toNat - '0'.toNat)
  else if 'a' ≤ c && c ≤ 'f' then some (c.toNat - 'a'.toNat + 10)
  else if 'A' ≤ c && c ≤ 'F' then some (c.toNat - 'A'.toNat + 10)
  else none

/-- Four hexadecimal digits. The text has ended too early if it has less than four bytes left. -/
def readHex : Reader Nat
  | a :: b :: c :: d :: rest =>
    match hexValue? a, hexValue? b, hexValue? c, hexValue? d with
    | some w, some x, some y, some z =>
      .ok ⟨((w * 16 + x) * 16 + y) * 16 + z, rest, by simp only [List.length_cons]; omega⟩
    | _, _, _, _ => .error .malformed
  | input => .error (if input.foldl (fun n c => n + c.utf8Size) 0 < 4 then .truncated else .malformed)

def letterEscape? : Char → Option Char
  | '"' => some '"'
  | '\\' => some '\\'
  | '/' => some '/'
  | 'b' => some '\x08'
  | 'f' => some '\x0c'
  | 'n' => some '\n'
  | 'r' => some '\r'
  | 't' => some '\t'
  | _ => none

def isHighSurrogate (n : Nat) : Bool := 0xD800 ≤ n && n < 0xDC00

def isLowSurrogate (n : Nat) : Bool := 0xDC00 ≤ n && n < 0xE000

/-- The second half of a character whose first half is `high`. -/
def readLowSurrogate (high : Nat) : Reader Char
  | [] | ['\\'] => .error .truncated
  | '\\' :: 'u' :: rest =>
    match readHex rest with
    | .error e => .error e
    | .ok low =>
      if isLowSurrogate low.value then
        .ok ((low.map fun n => Char.ofNat (0x10000 + (high - 0xD800) * 0x400 + (n - 0xDC00))).widen (by
          simp only [List.length_cons]; omega))
      else .error .malformed
  | _ => .error .malformed

/-- The character that an escape stands for, from behind its backslash. -/
def readEscape : Reader Char
  | [] => .error .truncated
  | 'u' :: rest =>
    match readHex rest with
    | .error e => .error e
    | .ok n =>
      if isLowSurrogate n.value then .error .malformed
      else if isHighSurrogate n.value then
        match readLowSurrogate n.value n.rest with
        | .error e => .error e
        | .ok c => .ok (c.widen (by have := n.shorter; simp only [List.length_cons]; omega))
      else .ok ((n.map Char.ofNat).behind)
  | c :: _ =>
    match letterEscape? c with
    | some d => .ok (.one d)
    | none => .error .malformed

/-- Passes over an escape; a half of a character may stand alone. -/
def skipEscape : Reader Unit
  | [] => .error .truncated
  | 'u' :: rest => (readHex rest).map fun n => (n.map fun _ => ()).behind
  | c :: _ => if (letterEscape? c).isSome then .ok (.one ()) else .error .malformed

/-- What lies between the place behind an opening quote and the closing one, escapes read by `escape`. -/
def readQuotedBy {α : Type} (escape : Reader α) (plain : List Char → List α) : Reader (List α) := fun input =>
  match h : input.dropWhile isPlain with
  | [] => .error .truncated
  | '"' :: rest => .ok ⟨plain (input.takeWhile isPlain), rest, length_lt_of_dropWhile h⟩
  | '\\' :: rest =>
    match escape rest with
    | .error e => .error e
    | .ok c =>
      have hc : c.rest.length < input.length := Nat.lt_trans c.shorter (length_lt_of_dropWhile h)
      match readQuotedBy escape plain c.rest with
      | .error e => .error e
      | .ok more =>
        .ok ((more.map fun xs => plain (input.takeWhile isPlain) ++ c.value :: xs).widen (Nat.le_of_lt hc))
  | _ => .error .malformed
termination_by input => input.length

def readQuoted : Reader String := fun input => (readQuotedBy readEscape id input).map (.map String.ofList)

def skipQuoted : Reader Unit := fun input => (readQuotedBy skipEscape (fun _ => []) input).map (.map fun _ => ())

/-- Quotes, backslashes and control characters are escaped, the latter by a letter where they have one. -/
def escapeChar (c : Char) : List Char :=
  match c with
  | '"' => ['\\', '"']
  | '\\' => ['\\', '\\']
  | '\x08' => ['\\', 'b']
  | '\x0c' => ['\\', 'f']
  | '\n' => ['\\', 'n']
  | '\r' => ['\\', 'r']
  | '\t' => ['\\', 't']
  | c =>
    if c < ' ' then ['\\', 'u', '0', '0', (Nat.digitChar (c.toNat / 16)), (Nat.digitChar (c.toNat % 16))] else [c]

def writeQuoted (s : String) : List Char := '"' :: s.toList.flatMap escapeChar ++ ['"']

end FrameLog.Json
