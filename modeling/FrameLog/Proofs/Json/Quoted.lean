import FrameLog.Proofs.Json.Reader

/-!
# Strings in quotes

What stands between the quotes of a string that is written is read back as the string (`gives_readQuoted`).
-/

namespace FrameLog.Json

variable {text rest : List Char}

/-- Plain characters are read up to the closing quote, or up to an escape and what follows it. -/
theorem gives_readQuotedBy {escape : Reader Char} {cs : List Char} : Gives (readQuotedBy escape id) text cs rest ↔
    text.dropWhile isPlain = '"' :: rest ∧ text.takeWhile isPlain = cs ∨
      ∃ (more : List Char) (c : Char) (later ds : List Char), text.dropWhile isPlain = '\\' :: more ∧
        Gives escape more c later ∧ Gives (readQuotedBy escape id) later ds rest ∧
        text.takeWhile isPlain ++ c :: ds = cs := by
  constructor
  · intro h
    unfold Gives readQuotedBy at h
    split at h
    · simp at h
    · next hquote =>
        obtain ⟨hcs, rfl⟩ := yields_ok.mp h
        exact .inl ⟨hquote, hcs⟩
    · next more hescape =>
        split at h
        · simp at h
        rename_i c hc
        dsimp only at h
        split at h
        · simp at h
        rename_i ds hds
        obtain ⟨hcs, rfl⟩ := yields_ok.mp h
        exact .inr ⟨more, c.value, c.rest, ds.value, hescape, yields_of_eq_ok hc, yields_of_eq_ok hds, hcs⟩
    · simp at h
  · intro h
    unfold Gives readQuotedBy
    split
    · next hnil => simp_all
    · next hquote => simp_all
    · next more hescape =>
        rcases h with ⟨hquote, -⟩ | ⟨more', c, later, ds, hescape', ⟨_, hc⟩, ⟨_, hds⟩, rfl⟩
        · cases hescape.symm.trans hquote
        · cases hescape.symm.trans hescape'
          simp [hc, hds, Consumed.widen, Consumed.map]
    · simp_all

theorem gives_quoted_nil {escape : Reader Char} : Gives (readQuotedBy escape id) ('"' :: rest) [] rest :=
  gives_readQuotedBy.mpr (.inl ⟨rfl, rfl⟩)

theorem gives_quoted_plain {escape : Reader Char} {c : Char} {cs : List Char} (hc : isPlain c)
    (h : Gives (readQuotedBy escape id) text cs rest) : Gives (readQuotedBy escape id) (c :: text) (c :: cs) rest := by
  rw [gives_readQuotedBy, List.dropWhile_cons_of_pos hc, List.takeWhile_cons_of_pos hc]
  rcases gives_readQuotedBy.mp h with ⟨hquote, rfl⟩ | ⟨more, d, later, ds, hescape, hd, hds, rfl⟩
  · exact .inl ⟨hquote, rfl⟩
  · exact .inr ⟨more, d, later, ds, hescape, hd, hds, rfl⟩

theorem gives_quoted_escape {escape : Reader Char} {c : Char} {cs more : List Char} (hc : Gives escape text c more)
    (h : Gives (readQuotedBy escape id) more cs rest) : Gives (readQuotedBy escape id) ('\\' :: text) (c :: cs) rest :=
  gives_readQuotedBy.mpr (.inr ⟨text, c, more, cs, rfl, hc, h, rfl⟩)

theorem hexValue?_digitChar {n : Nat} (h : n < 16) : hexValue? n.digitChar = some n := by
  interval_cases n <;> rfl

theorem gives_readHex_control {c : Char} (h : c < ' ') (rest : List Char) :
    Gives readHex ('0' :: '0' :: Nat.digitChar (c.toNat / 16) :: Nat.digitChar (c.toNat % 16) :: rest) c.toNat rest := by
  have hc : c.toNat < 32 := h
  have hzero : hexValue? '0' = some 0 := rfl
  unfold Gives readHex
  simp only [hzero, hexValue?_digitChar (show c.toNat / 16 < 16 by omega),
    hexValue?_digitChar (Nat.mod_lt c.toNat (by decide)), yields_ok, and_true]
  omega

theorem gives_readEscape_letter {c d : Char} (hd : letterEscape? d = some c) : Gives readEscape (d :: rest) c rest := by
  have hu : d ≠ 'u' := by
    rintro rfl
    cases hd
  unfold Gives
  rw [readEscape, hd]
  · simp [Consumed.one]
  · exact hu

theorem gives_readEscape_control {c : Char} (h : c < ' ') : Gives readEscape
    ('u' :: '0' :: '0' :: Nat.digitChar (c.toNat / 16) :: Nat.digitChar (c.toNat % 16) :: rest) c rest := by
  have hc : c.toNat < 32 := h
  obtain ⟨_, hread⟩ := gives_readHex_control h rest
  have hlow : isLowSurrogate c.toNat = false := by simp [isLowSurrogate]; omega
  have hhigh : isHighSurrogate c.toNat = false := by simp [isHighSurrogate]; omega
  unfold Gives readEscape
  simp [hread, hlow, hhigh, Consumed.map, Consumed.behind, Consumed.widen]

/-- A character stands for itself, or it is read from behind a backslash. -/
theorem escapeChar_cases (c : Char) : escapeChar c = [c] ∧ isPlain c ∨
    ∃ more, escapeChar c = '\\' :: more ∧ ∀ rest, Gives readEscape (more ++ rest) c rest := by
  unfold escapeChar
  split
  case h_8 hquote hslash _ _ _ _ _ =>
      split
      · next hcontrol => exact .inr ⟨_, rfl, fun rest => gives_readEscape_control hcontrol⟩
      · next hcontrol => exact .inl ⟨rfl, by simp_all [isPlain]⟩
  all_goals exact .inr ⟨_, rfl, fun rest => gives_readEscape_letter rfl⟩

theorem gives_quoted (cs : List Char) :
    Gives (readQuotedBy readEscape id) (cs.flatMap escapeChar ++ '"' :: rest) cs rest := by
  induction cs with
  | nil => exact gives_quoted_nil
  | cons c cs ih =>
      rw [List.flatMap_cons, List.append_assoc]
      rcases escapeChar_cases c with ⟨hself, hplain⟩ | ⟨more, hescaped, hread⟩
      · rw [hself]
        exact gives_quoted_plain hplain ih
      · rw [hescaped]
        exact gives_quoted_escape (hread _) ih

/-- A string that is written is read back. -/
theorem gives_readQuoted (s : String) : Gives readQuoted (s.toList.flatMap escapeChar ++ '"' :: rest) s rest :=
  yields_map.mpr ⟨s.toList, gives_quoted s.toList, String.ofList_toList⟩

end FrameLog.Json
