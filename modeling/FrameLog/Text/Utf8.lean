import FrameLog.Prefix

/-! UTF-8 read byte by byte: characters, and the pieces that are none. -/
namespace FrameLog.Utf8

def encode (text : List Char) : Bytes := text.flatMap String.utf8EncodeChar

/-- What stands at one place of a byte string. -/
inductive Piece
  | char (c : Char)
  /-- So many bytes begin a character that the next byte does not continue. -/
  | malformed (length : Nat)
  | cut
deriving DecidableEq, Repr

/-- What a first byte says: its share of the code point, how many bytes follow, and the range of the second. -/
structure Lead where
  value : Nat
  tails : Nat
  low : UInt8
  high : UInt8

def Lead.of? (b : UInt8) : Option Lead :=
  if b < 0x80 then some ⟨b.toNat, 0, 0x80, 0xBF⟩
  else if b < 0xC2 then none
  else if b < 0xE0 then some ⟨b.toNat - 0xC0, 1, 0x80, 0xBF⟩
  else if b = 0xE0 then some ⟨0, 2, 0xA0, 0xBF⟩
  else if b = 0xED then some ⟨0xD, 2, 0x80, 0x9F⟩
  else if b < 0xF0 then some ⟨b.toNat - 0xE0, 2, 0x80, 0xBF⟩
  else if b = 0xF0 then some ⟨0, 3, 0x90, 0xBF⟩
  else if b < 0xF4 then some ⟨b.toNat - 0xF0, 3, 0x80, 0xBF⟩
  else if b = 0xF4 then some ⟨4, 3, 0x80, 0x8F⟩
  else none

/-- Reads the bytes after the first; `seen` bytes of the character are read. -/
def readTails (seen : Nat) : Nat → Nat → UInt8 → UInt8 → Bytes → Piece × Bytes
  | 0, value, _, _, bytes => (.char (Char.ofNat value), bytes)
  | _ + 1, _, _, _, [] => (.cut, [])
  | tails + 1, value, low, high, b :: rest =>
    if low ≤ b ∧ b ≤ high then
      readTails (seen + 1) tails (64 * value + (b.toNat - 0x80)) 0x80 0xBF rest
    else (.malformed seen, b :: rest)

def readPiece (b : UInt8) (rest : Bytes) : Piece × Bytes :=
  match Lead.of? b with
  | none => (.malformed 1, rest)
  | some l => readTails 1 l.tails l.value l.low l.high rest

theorem length_readTails_le (seen tails value : Nat) (low high : UInt8) (bytes : Bytes) :
    (readTails seen tails value low high bytes).2.length ≤ bytes.length := by
  induction tails generalizing seen value low high bytes with
  | zero => simp [readTails]
  | succ n ih =>
    cases bytes with
    | nil => simp [readTails]
    | cons b rest =>
      simp only [readTails]
      split
      · exact Nat.le_succ_of_le (ih ..)
      · exact Nat.le_refl _

theorem length_readPiece_le (b : UInt8) (rest : Bytes) : (readPiece b rest).2.length ≤ rest.length := by
  simp only [readPiece]
  split
  · exact Nat.le_refl _
  · exact length_readTails_le ..

def pieces : Bytes → List Piece
  | [] => []
  | b :: rest => (readPiece b rest).1 :: pieces (readPiece b rest).2
termination_by bytes => bytes.length
decreasing_by
  have := length_readPiece_le b rest
  simp only [List.length_cons]
  omega

/-- Where bytes stop being UTF-8, and how many bytes are wrong there; none if the end cuts a character off. -/
structure Error where
  validUpTo : Nat
  length : Option Nat
deriving DecidableEq, Repr

namespace Error

def message : Error → String
  | ⟨index, some n⟩ => s!"invalid utf-8 sequence of {n} bytes from index {index}"
  | ⟨index, none⟩ => s!"incomplete utf-8 byte sequence from index {index}"

end Error

/-- The first piece that is no character, `offset` bytes being read before. -/
def firstError (offset : Nat) : List Piece → Option Error
  | [] => none
  | .char c :: rest => firstError (offset + c.utf8Size) rest
  | .malformed n :: _ => some ⟨offset, some n⟩
  | .cut :: _ => some ⟨offset, none⟩

/-- The character of a piece, or the replacement character. -/
def Piece.toChar : Piece → Char
  | .char c => c
  | _ => '\uFFFD'

/-- Text with a replacement character for each piece that is none. -/
def decodeLossy (bytes : Bytes) : List Char := (pieces bytes).map Piece.toChar

def decode (bytes : Bytes) : Except Error (List Char) :=
  match firstError 0 (pieces bytes) with
  | some e => .error e
  | none => .ok (decodeLossy bytes)

end FrameLog.Utf8
