import Mathlib
import FrameLog.Prefix

/-!
# Logs and their bytes

A log is a list of payloads. Its bytes are the frames of the payloads back to back. `Framed` says the same from
the side of the bytes, and a text is framed in one way at most.
-/

namespace FrameLog

abbrev Log := List Bytes

namespace Log

/-- A payload behind its length. -/
def frame (payload : Bytes) : Bytes := Prefix.encode payload.length ++ payload

def bytes (log : Log) : Bytes := log.flatMap frame

/-- The lengths of the frames, prefixes included. -/
def sizes (log : Log) : List Nat := log.map fun payload => Prefix.size + payload.length

variable {log : Log} {payload data front rest : Bytes}

@[simp] theorem length_frame (payload : Bytes) : (frame payload).length = Prefix.size + payload.length := by
  simp [frame]

@[simp] theorem bytes_nil : bytes [] = [] := rfl

@[simp] theorem bytes_cons (payload : Bytes) (log : Log) : bytes (payload :: log) = frame payload ++ bytes log := rfl

@[simp] theorem bytes_append (log more : Log) : bytes (log ++ more) = bytes log ++ bytes more := by
  simp [bytes]

@[simp] theorem sizes_nil : sizes [] = [] := rfl

@[simp] theorem sizes_append (log more : Log) : sizes (log ++ more) = sizes log ++ sizes more := by
  simp [sizes]

@[simp] theorem sizes_singleton (payload : Bytes) : sizes [payload] = [Prefix.size + payload.length] := rfl

@[simp] theorem length_sizes (log : Log) : log.sizes.length = log.length := by
  simp [sizes]

theorem sizes_take (log : Log) (n : Nat) : sizes (log.take n) = log.sizes.take n := by
  simp [sizes, List.map_take]

theorem sum_sizes (log : Log) : log.sizes.sum = log.bytes.length := by
  induction log with
  | nil => rfl
  | cons payload log ih =>
      rw [bytes_cons, List.length_append, length_frame, ← ih]
      rfl

/-- Four bytes of every frame are its prefix. -/
theorem length_bytes (log : Log) : log.bytes.length = Prefix.size * log.length + (log.map List.length).sum := by
  induction log with
  | nil => rfl
  | cons payload log ih =>
      simp only [bytes_cons, List.length_append, length_frame, ih, List.length_cons, List.map_cons, List.sum_cons,
        Nat.mul_add]
      omega

theorem length_bytes_perm {other : Log} (h : log.Perm other) : log.bytes.length = other.bytes.length := by
  rw [← sum_sizes, ← sum_sizes]
  exact (h.map _).sum_eq

/-! ## Where the frames lie -/

def offset (log : Log) (i : Nat) : Nat := (bytes (log.take i)).length

@[simp] theorem offset_zero (log : Log) : log.offset 0 = 0 := rfl

theorem offset_length (log : Log) : log.offset log.length = log.bytes.length := by
  rw [offset, List.take_length]

theorem offset_eq_sum (log : Log) (i : Nat) : log.offset i = (log.sizes.take i).sum := by
  rw [offset, ← sum_sizes, sizes_take]

theorem bytes_split {i : Nat} (h : i < log.length) :
    log.bytes = bytes (log.take i) ++ (frame log[i] ++ bytes (log.drop (i + 1))) := by
  rw [← bytes_cons, ← List.drop_eq_getElem_cons h, ← bytes_append, List.take_append_drop]

theorem offset_succ {i : Nat} (h : i < log.length) :
    log.offset (i + 1) = log.offset i + (Prefix.size + log[i].length) := by
  rw [offset, List.take_succ_eq_append_getElem h, bytes_append, List.length_append, bytes_cons, bytes_nil,
    List.append_nil, length_frame, offset]

theorem offset_mono {i j : Nat} (h : i ≤ j) : log.offset i ≤ log.offset j := by
  rw [offset, offset, ← List.take_append_drop i (log.take j), List.take_take, Nat.min_eq_left h, bytes_append,
    List.length_append]
  exact Nat.le_add_right ..

theorem offset_le (log : Log) (i : Nat) : log.offset i ≤ log.bytes.length := by
  rw [bytes, ← List.take_append_drop i log, List.flatMap_append, List.length_append, List.take_append_drop]
  exact Nat.le_add_right ..

theorem take_offset (log : Log) (k : Nat) : log.bytes.take (log.offset k) = bytes (log.take k) := by
  have hsplit : log.bytes = bytes (log.take k) ++ bytes (log.drop k) := by
    rw [← bytes_append, List.take_append_drop]
  rw [hsplit, offset, List.take_left]

theorem take_within {k m : Nat} (hk : k < log.length) (h : log.offset k ≤ m) (h' : m < log.offset (k + 1)) :
    log.bytes.take m = bytes (log.take k) ++ (frame log[k]).take (m - log.offset k) := by
  rw [offset_succ hk] at h'
  rw [bytes_split hk, List.take_append, List.take_of_length_le h, offset,
    List.take_append_of_le_length (by rw [length_frame]; simp only [offset] at h'; omega)]

/-! ## Framed bytes -/

/-- The bytes are the frames of the payloads: a number that is not negative, and as many bytes as it counts. -/
inductive Framed : Bytes → Log → Prop
  | nil : Framed [] []
  | cons {a b c d : UInt8} {payload rest : Bytes} {log : Log} (length : Prefix.decode a b c d = payload.length)
      (tail : Framed rest log) : Framed (a :: b :: c :: d :: (payload ++ rest)) (payload :: log)

/-- Some bytes begin with no frame: they are too few for a prefix, or its number is negative or counts more bytes
than follow. -/
inductive Broken : Bytes → Prop
  | short {rest : Bytes} (some : rest ≠ []) (few : rest.length < Prefix.size) : Broken rest
  | negative {a b c d : UInt8} {rest : Bytes} (sign : Prefix.decode a b c d < 0) : Broken (a :: b :: c :: d :: rest)
  | past {a b c d : UInt8} {rest : Bytes} (more : (rest.length : Int) < Prefix.decode a b c d) :
      Broken (a :: b :: c :: d :: rest)

theorem Broken.ne_nil (h : Broken rest) : rest ≠ [] := by
  cases h with
  | short some _ => exact some
  | negative _ => simp
  | past _ => simp

theorem Framed.append {more : Log} (h : Framed front log) (h' : Framed rest more) :
    Framed (front ++ rest) (log ++ more) := by
  induction h with
  | nil => exact h'
  | cons length _ ih =>
      simp only [List.cons_append, List.append_assoc]
      exact .cons length ih

theorem frame_cons (h : payload.length < 0x80000000) :
    ∃ a b c d, frame payload = a :: b :: c :: d :: payload ∧ Prefix.decode a b c d = payload.length := by
  obtain ⟨a, b, c, d, hencode, hdecode⟩ := Prefix.decode_encode (n := payload.length) (by omega) (by omega)
  exact ⟨a, b, c, d, by rw [frame, hencode]; rfl, hdecode⟩

theorem framed_singleton (h : payload.length < 0x80000000) : Framed (frame payload) [payload] := by
  obtain ⟨a, b, c, d, hframe, hdecode⟩ := frame_cons h
  have hend : Framed (a :: b :: c :: d :: (payload ++ [])) [payload] := .cons hdecode .nil
  rwa [List.append_nil, ← hframe] at hend

theorem frame_of_decode {a b c d : UInt8} (h : Prefix.decode a b c d = payload.length) :
    frame payload = a :: b :: c :: d :: payload := by
  rw [frame, ← h, Prefix.encode_decode]
  rfl

theorem framed_iff : Framed data log ↔ data = log.bytes ∧ ∀ payload ∈ log, payload.length < 0x80000000 := by
  constructor
  · intro h
    induction h with
    | nil => simp
    | @cons a b c d payload rest log length tail ih =>
        obtain ⟨rfl, hlog⟩ := ih
        have hframe := frame_of_decode length
        have hlt := Prefix.decode_lt a b c d
        refine ⟨by simp [hframe], ?_⟩
        intro p hp
        rcases List.mem_cons.mp hp with rfl | hp
        · omega
        · exact hlog p hp
  · rintro ⟨rfl, hlog⟩
    induction log with
    | nil => exact .nil
    | cons payload log ih =>
        exact (framed_singleton (hlog payload (by simp))).append
          (ih fun p hp => hlog p (List.mem_cons_of_mem payload hp))

theorem Framed.eq_bytes (h : Framed data log) : data = log.bytes := (framed_iff.mp h).1

theorem Framed.take (h : Framed data log) (k : Nat) : Framed (data.take (log.offset k)) (log.take k) := by
  obtain ⟨rfl, hshort⟩ := framed_iff.mp h
  exact framed_iff.mpr ⟨take_offset log k, fun p hp => hshort p (List.mem_of_mem_take hp)⟩

/-- The same bytes are frames in one way only. -/
theorem Framed.unique {other : Log} (h : Framed data log) (h' : Framed data other) : log = other := by
  induction h generalizing other with
  | nil => cases h'; rfl
  | @cons a b c d payload rest log length tail ih =>
      generalize hdata : a :: b :: c :: d :: (payload ++ rest) = data at h'
      cases h' with
      | nil => simp at hdata
      | @cons a' b' c' d' payload' rest' log' length' tail' =>
          simp only [List.cons.injEq] at hdata
          obtain ⟨rfl, rfl, rfl, rfl, hdata⟩ := hdata
          have hlength : payload.length = payload'.length := by exact_mod_cast length.symm.trans length'
          obtain ⟨rfl, rfl⟩ := List.append_inj hdata hlength
          rw [ih tail']

/-- Whatever some bytes are, a frame begins them or none does. -/
theorem broken_or_frame (h : data ≠ []) :
    Broken data ∨ ∃ payload rest, data = frame payload ++ rest ∧ payload.length < 0x80000000 := by
  match data with
  | [] => exact absurd rfl h
  | [_] | [_, _] | [_, _, _] => exact .inl (.short h (by simp [Prefix.size]))
  | a :: b :: c :: d :: rest =>
      by_cases hneg : Prefix.decode a b c d < 0
      · exact .inl (.negative hneg)
      by_cases hpast : (rest.length : Int) < Prefix.decode a b c d
      · exact .inl (.past hpast)
      obtain ⟨n, hn⟩ := Int.eq_ofNat_of_zero_le (Int.not_lt.mp hneg)
      have hlt := Prefix.decode_lt a b c d
      have hlength : (rest.take n).length = n := List.length_take_of_le (by omega)
      refine .inr ⟨rest.take n, rest.drop n, ?_, by omega⟩
      rw [frame, hlength, ← hn, Prefix.encode_decode]
      simp

theorem broken_of_prefix (h : rest <+: frame payload) (hsome : rest ≠ [])
    (hcut : rest.length < (frame payload).length) (hpayload : payload.length < 0x80000000) : Broken rest := by
  obtain ⟨a, b, c, d, hframe, hdecode⟩ := frame_cons hpayload
  rw [hframe] at h hcut
  match rest with
  | [] => exact absurd rfl hsome
  | [_] | [_, _] | [_, _, _] => exact .short hsome (by simp [Prefix.size])
  | a' :: b' :: c' :: d' :: tail =>
      simp only [List.cons_prefix_cons] at h
      obtain ⟨rfl, rfl, rfl, rfl, -⟩ := h
      simp only [List.length_cons] at hcut
      exact .past (by omega)

/-- A position in the bytes is the beginning of a frame or the end, or it cuts a frame. -/
theorem boundary_or_within (log : Log) {m : Nat} (h : m ≤ log.bytes.length) :
    (∃ k ≤ log.length, m = log.offset k) ∨ ∃ k < log.length, log.offset k < m ∧ m < log.offset (k + 1) := by
  rw [← offset_length] at h
  suffices hall : ∀ n ≤ log.length, m ≤ log.offset n →
      (∃ k ≤ log.length, m = log.offset k) ∨ ∃ k < log.length, log.offset k < m ∧ m < log.offset (k + 1) from
    hall _ (Nat.le_refl _) h
  intro n hn hm
  induction n with
  | zero => exact .inl ⟨0, hn, Nat.le_zero.mp hm⟩
  | succ n ih =>
      rcases Nat.lt_or_ge (log.offset n) m with hlt | hge
      · rcases Nat.lt_or_ge m (log.offset (n + 1)) with hlt' | hge'
        · exact .inr ⟨n, hn, hlt, hlt'⟩
        · exact .inl ⟨n + 1, hn, Nat.le_antisymm hm hge'⟩
      · exact ih (Nat.le_of_succ_le hn) hge

end Log
end FrameLog
