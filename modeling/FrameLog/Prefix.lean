/-! Byte strings, and the length prefix of a frame: a signed 32-bit number, least significant byte first. -/
namespace FrameLog

abbrev Bytes := List UInt8

namespace Prefix

def size : Nat := 4

/-- The longest payload: the whole frame has to fit the largest signed number. -/
def maxPayload : Nat := 0x7FFFFFFF - size

/-- The two's complement of `n`. -/
def encode (n : Int) : Bytes :=
  let w := (n % 0x100000000).toNat
  [.ofNat w, .ofNat (w / 0x100), .ofNat (w / 0x10000), .ofNat (w / 0x1000000)]

def decode (a b c d : UInt8) : Int :=
  Int.bmod (a.toNat + 0x100 * b.toNat + 0x10000 * c.toNat + 0x1000000 * d.toNat) 0x100000000

/-! A prefix carries every signed 32-bit number, and only those. -/

theorem decode_encode {n : Int} (h : -0x80000000 ≤ n) (h' : n < 0x80000000) :
    ∃ a b c d, encode n = [a, b, c, d] ∧ decode a b c d = n := by
  refine ⟨_, _, _, _, rfl, ?_⟩
  have hw : ((n % 0x100000000).toNat : Int) = n % 0x100000000 := by omega
  generalize (n % 0x100000000).toNat = w at hw
  unfold decode
  rw [Int.bmod_def]
  simp only [UInt8.toNat_ofNat']
  omega

theorem encode_decode (a b c d : UInt8) : encode (decode a b c d) = [a, b, c, d] := by
  have ha := a.toNat_lt
  have hb := b.toNat_lt
  have hc := c.toNat_lt
  have hd := d.toNat_lt
  have hw : (decode a b c d % 0x100000000).toNat =
      a.toNat + 0x100 * b.toNat + 0x10000 * c.toNat + 0x1000000 * d.toNat := by
    unfold decode
    rw [Int.bmod_def]
    omega
  unfold encode
  simp only [hw, List.cons.injEq, and_true]
  refine ⟨?_, ?_, ?_, ?_⟩ <;> apply UInt8.toNat_inj.mp <;> rw [UInt8.toNat_ofNat'] <;> omega

theorem decode_lt (a b c d : UInt8) : decode a b c d < 0x80000000 := by
  unfold decode
  rw [Int.bmod_def]
  omega

@[simp] theorem length_encode (n : Int) : (encode n).length = size := rfl

end Prefix
end FrameLog
