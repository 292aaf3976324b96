import Mathlib
import FrameLog.Text.Utf8

/-!
# Text that is encoded is read back

The bytes of a character are one piece, whatever follows them; so the bytes of a text are as many pieces as it has
characters, none of which is replaced (`decodeLossy_encode`).
-/

namespace FrameLog.Utf8

variable {seen tails value n k : Nat} {low high : UInt8} {rest : Bytes} {c : Char}

/-! ## The first byte -/

theorem lead_one (h : n < 0x80) : Lead.of? (.ofNat n) = some ⟨n, 0, 0x80, 0xBF⟩ := by
  have hn : (UInt8.ofNat n).toNat = n := by rw [UInt8.toNat_ofNat']; omega
  rw [Lead.of?, if_pos (UInt8.lt_iff_toNat_lt.mpr (by rw [hn]; exact h)), hn]

/-- With a share below two the character would have been one byte. -/
theorem lead_two (h : 2 ≤ k) (h' : k < 32) : Lead.of? (.ofNat (k + 192)) = some ⟨k, 1, 0x80, 0xBF⟩ := by
  interval_cases k <;> rfl

theorem lead_three (h : k < 16) : Lead.of? (.ofNat (k + 224)) =
    some ⟨k, 2, if k = 0 then 0xA0 else 0x80, if k = 13 then 0x9F else 0xBF⟩ := by
  interval_cases k <;> rfl

theorem lead_four (h : k < 5) : Lead.of? (.ofNat (k + 240)) =
    some ⟨k, 3, if k = 0 then 0x90 else 0x80, if k = 4 then 0x8F else 0xBF⟩ := by
  interval_cases k <;> rfl

/-! ## The bytes that follow -/

theorem readTails_ofNat (hn : n < 64) (hlow : low.toNat ≤ n + 128) (hhigh : n + 128 ≤ high.toNat) :
    readTails seen (tails + 1) value low high (.ofNat (n + 128) :: rest) =
      readTails (seen + 1) tails (64 * value + n) 0x80 0xBF rest := by
  have hb : (UInt8.ofNat (n + 128)).toNat = n + 128 := by rw [UInt8.toNat_ofNat']; omega
  have hwithin : low ≤ UInt8.ofNat (n + 128) ∧ UInt8.ofNat (n + 128) ≤ high := by
    rw [UInt8.le_iff_toNat_le, UInt8.le_iff_toNat_le, hb]
    exact ⟨hlow, hhigh⟩
  rw [readTails, if_pos hwithin, hb, Nat.add_sub_cancel]

theorem readTails_ofNat_any (hn : n < 64) :
    readTails seen (tails + 1) value 0x80 0xBF (.ofNat (n + 128) :: rest) =
      readTails (seen + 1) tails (64 * value + n) 0x80 0xBF rest :=
  readTails_ofNat hn (Nat.le_add_left ..) (Nat.add_le_add_right (Nat.le_of_lt_succ hn) 128)

theorem readTails_zero (hvalue : Char.ofNat value = c) :
    readTails seen 0 value low high rest = (.char c, rest) := by
  rw [readTails, hvalue]

/-! ## A character, and a text -/

/-- The bounds on the second byte are the ones that keep out what shorter forms say, the surrogates, and what lies
past the last character; a character's own bytes lie within them. -/
theorem readPiece_encodeChar (c : Char) (rest : Bytes) :
    ∃ b tail, String.utf8EncodeChar c = b :: tail ∧ readPiece b (tail ++ rest) = (.char c, rest) := by
  have hvalid := c.valid
  have hchar : Char.ofNat c.val.toNat = c := Char.ofNat_toNat c
  simp only [UInt32.isValidChar, Nat.isValidChar] at hvalid
  rw [String.utf8EncodeChar]
  generalize c.val.toNat = v at hvalid hchar
  split
  · refine ⟨_, _, rfl, ?_⟩
    rw [readPiece, lead_one (by omega)]
    exact readTails_zero hchar
  split
  · refine ⟨_, _, rfl, ?_⟩
    rw [readPiece, lead_two (by omega) (by omega)]
    refine (readTails_ofNat_any (by omega)).trans (readTails_zero ?_)
    rwa [show 64 * (v / 64 % 32) + v % 64 = v by omega]
  split
  · refine ⟨_, _, rfl, ?_⟩
    rw [readPiece, lead_three (by omega)]
    refine (readTails_ofNat (by omega) ?_ ?_).trans ((readTails_ofNat_any (by omega)).trans (readTails_zero ?_))
    · rw [apply_ite UInt8.toNat]
      split
      · exact show 160 ≤ _ by omega
      · exact Nat.le_add_left ..
    · rw [apply_ite UInt8.toNat]
      split
      · exact show _ ≤ 159 by omega
      · exact show _ ≤ 191 by omega
    · rwa [show 64 * (64 * (v / 4096 % 16) + v / 64 % 64) + v % 64 = v by omega]
  · refine ⟨_, _, rfl, ?_⟩
    rw [readPiece, lead_four (by omega)]
    refine (readTails_ofNat (by omega) ?_ ?_).trans ((readTails_ofNat_any (by omega)).trans
      ((readTails_ofNat_any (by omega)).trans (readTails_zero ?_)))
    · rw [apply_ite UInt8.toNat]
      split
      · exact show 144 ≤ _ by omega
      · exact Nat.le_add_left ..
    · rw [apply_ite UInt8.toNat]
      split
      · exact show _ ≤ 143 by omega
      · exact show _ ≤ 191 by omega
    · rwa [show 64 * (64 * (64 * (v / 262144 % 8) + v / 4096 % 64) + v / 64 % 64) + v % 64 = v by omega]

theorem pieces_encodeChar (c : Char) (rest : Bytes) :
    pieces (String.utf8EncodeChar c ++ rest) = .char c :: pieces rest := by
  obtain ⟨b, tail, hbytes, hread⟩ := readPiece_encodeChar c rest
  rw [hbytes, List.cons_append, pieces, hread]

theorem pieces_encode (text : List Char) : pieces (encode text) = text.map .char := by
  induction text with
  | nil => rw [encode, List.flatMap_nil, pieces, List.map_nil]
  | cons c rest ih => rw [encode, List.flatMap_cons, pieces_encodeChar, List.map_cons, ← encode, ih]

theorem decodeLossy_encode (text : List Char) : decodeLossy (encode text) = text := by
  rw [decodeLossy, pieces_encode, List.map_map]
  exact List.map_id text

theorem firstError_chars (offset : Nat) (text : List Char) : firstError offset (text.map .char) = none := by
  induction text generalizing offset with
  | nil => rfl
  | cons c rest ih => rw [List.map_cons, firstError, ih]

theorem decode_encode (text : List Char) : decode (encode text) = .ok text := by
  rw [decode, pieces_encode, firstError_chars, decodeLossy_encode]

end FrameLog.Utf8
