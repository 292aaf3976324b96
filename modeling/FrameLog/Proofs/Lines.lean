import Mathlib.Data.List.Basic
import FrameLog.Command.Payloads

/-!
# The lines of a text

A text falls into lines in one way (`isLines_iff`). A line feed cuts it in two texts that are split each on its own
(`lines_append`), so that blank lines, the feed at the end and carriage returns before the feeds can be told from the
lines alone.
-/

namespace FrameLog.Text

/-- A piece of a text without one carriage return at its end. -/
def withoutReturn (piece : List Char) : List Char := if piece.getLast? = some '\r' then piece.dropLast else piece

/-- What each line feed ends is a line, without one carriage return before the feed; so is what the last feed leaves,
if that is anything. -/
inductive IsLines : List Char → List (List Char) → Prop
  | nil : IsLines [] []
  | last {line : List Char} (some : line ≠ []) (whole : '\n' ∉ line) : IsLines line [line]
  | cons {piece rest : List Char} {lines : List (List Char)} (whole : '\n' ∉ piece) (tail : IsLines rest lines) :
      IsLines (piece ++ '\n' :: rest) (withoutReturn piece :: lines)

def isBlankLine (line : List Char) : Bool := line.all isBlank

/-- The text with a carriage return before each line feed. -/
def withReturns (text : List Char) : List Char := text.flatMap fun c => if c = '\n' then ['\r', '\n'] else [c]

variable {text piece line rest before : List Char} {ls : List (List Char)}

/-- A text is a piece without line feeds, or such a piece ended by one before another text. -/
theorem piece_induction {motive : List Char → Prop} (last : ∀ line, '\n' ∉ line → motive line)
    (cons : ∀ piece rest, '\n' ∉ piece → motive rest → motive (piece ++ '\n' :: rest)) (text : List Char) :
    motive text := by
  induction hlength : text.length using Nat.strongRecOn generalizing text with
  | ind n ih =>
      by_cases hfeed : '\n' ∈ text
      · obtain ⟨piece, rest, rfl, hpiece⟩ := List.eq_append_cons_of_mem hfeed
        refine cons piece rest hpiece (ih rest.length ?_ rest rfl)
        rw [← hlength, List.length_append, List.length_cons]
        omega
      · exact last text hfeed

/-! ## One line -/

theorem reverse_dropReturn (piece : List Char) : (dropReturn piece.reverse).reverse = withoutReturn piece := by
  rcases List.eq_nil_or_concat piece with rfl | ⟨front, c, rfl⟩
  · rfl
  · by_cases hc : c = '\r'
    · subst hc
      simp [withoutReturn, dropReturn]
    · simp [withoutReturn, dropReturn, hc]

theorem withoutReturn_of_not_mem (h : '\r' ∉ piece) : withoutReturn piece = piece :=
  if_neg fun hlast => h (List.mem_of_getLast? hlast)

theorem withoutReturn_append (piece : List Char) : withoutReturn (piece ++ ['\r']) = piece := by
  simp [withoutReturn]

theorem isBlankLine_withoutReturn (h : isBlankLine piece) : isBlankLine (withoutReturn piece) := by
  rw [withoutReturn]
  split
  · rw [isBlankLine, List.all_eq_true] at h ⊢
    exact fun c hc => h c (List.dropLast_subset piece hc)
  · exact h

theorem linesAfter_whole (h : '\n' ∉ piece) (before : List Char) : linesAfter before piece =
    if (before.reverse ++ piece).isEmpty then [] else [before.reverse ++ piece] := by
  induction piece generalizing before with
  | nil => cases before <;> simp [linesAfter]
  | cons c piece ih =>
      obtain ⟨hc, hpiece⟩ := List.ne_and_not_mem_of_not_mem_cons h
      rw [linesAfter, if_neg hc.symm, ih hpiece]
      simp

theorem linesAfter_ended (h : '\n' ∉ piece) (before rest : List Char) : linesAfter before (piece ++ '\n' :: rest) =
    withoutReturn (before.reverse ++ piece) :: lines rest := by
  induction piece generalizing before with
  | nil =>
      have hline := reverse_dropReturn before.reverse
      rw [List.reverse_reverse] at hline
      rw [List.nil_append, List.append_nil, linesAfter, if_pos rfl, hline]
      rfl
  | cons c piece ih =>
      obtain ⟨hc, hpiece⟩ := List.ne_and_not_mem_of_not_mem_cons h
      rw [List.cons_append, linesAfter, if_neg hc.symm, ih hpiece]
      simp

theorem lines_whole (h : '\n' ∉ line) : lines line = if line.isEmpty then [] else [line] := linesAfter_whole h []

theorem lines_ended (h : '\n' ∉ piece) (rest : List Char) :
    lines (piece ++ '\n' :: rest) = withoutReturn piece :: lines rest := linesAfter_ended h [] rest

/-! ## All lines -/

theorem isLines_lines (text : List Char) : IsLines text (lines text) := by
  induction text using piece_induction with
  | last line hline =>
      rw [lines_whole hline]
      cases line with
      | nil => exact .nil
      | cons c line => exact .last (List.cons_ne_nil c line) hline
  | cons piece rest hpiece ih =>
      rw [lines_ended hpiece]
      exact .cons hpiece ih

theorem isLines_iff : IsLines text ls ↔ lines text = ls := by
  constructor
  · intro h
    induction h with
    | nil => rfl
    | last hsome hline => rw [lines_whole hline, if_neg (by simpa using hsome)]
    | cons hpiece _ ih => rw [lines_ended hpiece, ih]
  · rintro rfl
    exact isLines_lines text

theorem lines_append (text rest : List Char) : lines (text ++ '\n' :: rest) = lines (text ++ ['\n']) ++ lines rest := by
  induction text using piece_induction with
  | last line hline =>
      rw [lines_ended hline, lines_ended hline]
      rfl
  | cons piece text hpiece ih =>
      rw [List.append_assoc, List.cons_append, lines_ended hpiece, ih, List.append_assoc, List.cons_append,
        lines_ended hpiece]
      rfl

/-- A line feed at the end ends the last line, or one more that is empty. -/
theorem lines_feed (h : '\r' ∉ text) :
    lines (text ++ ['\n']) = lines text ∨ lines (text ++ ['\n']) = lines text ++ [[]] := by
  induction text using piece_induction with
  | last line hline =>
      rw [lines_ended hline, lines_whole hline, withoutReturn_of_not_mem h]
      cases line with
      | nil => exact .inr rfl
      | cons c line => exact .inl rfl
  | cons piece text hpiece ih =>
      have htext : '\r' ∉ text := fun hmem => h (List.mem_append_right piece (List.mem_cons_of_mem _ hmem))
      rw [List.append_assoc, List.cons_append, lines_ended hpiece, lines_ended hpiece]
      rcases ih htext with hsame | hmore
      · exact .inl (by rw [hsame])
      · exact .inr (by rw [hmore]; rfl)

theorem isBlankLine_of_mem_lines (h : isBlankLine text) : ∀ line ∈ lines text, isBlankLine line := by
  induction text using piece_induction with
  | last line hline =>
      rw [lines_whole hline]
      split
      · intro other hother
        cases hother
      · intro other hother
        rwa [List.mem_singleton.mp hother]
  | cons piece rest hpiece ih =>
      rw [isBlankLine, List.all_append, Bool.and_eq_true, List.all_cons, Bool.and_eq_true] at h
      rw [lines_ended hpiece]
      intro line hline
      rcases List.mem_cons.mp hline with rfl | hline
      · exact isBlankLine_withoutReturn h.1
      · exact ih h.2.2 line hline

theorem withReturns_of_not_mem (h : '\n' ∉ piece) : withReturns piece = piece := by
  rw [withReturns, List.flatMap_congr (g := fun c => [c]), List.flatMap_singleton']
  intro c hc
  rw [if_neg]
  rintro rfl
  exact h hc

theorem lines_withReturns (h : '\r' ∉ text) : lines (withReturns text) = lines text := by
  induction text using piece_induction with
  | last line hline => rw [withReturns_of_not_mem hline]
  | cons piece rest hpiece ih =>
      have hreturn : '\r' ∉ piece := fun hmem => h (List.mem_append_left _ hmem)
      have hrest : '\r' ∉ rest := fun hmem => h (List.mem_append_right piece (List.mem_cons_of_mem _ hmem))
      have hfeed : '\n' ∉ piece ++ ['\r'] := by simpa using hpiece
      have hsplit : withReturns (piece ++ '\n' :: rest) = (piece ++ ['\r']) ++ '\n' :: withReturns rest := by
        have hwhole := withReturns_of_not_mem hpiece
        rw [withReturns] at hwhole ⊢
        rw [List.flatMap_append, hwhole, List.flatMap_cons, if_pos rfl]
        simp [withReturns]
      rw [hsplit, lines_ended hfeed, withoutReturn_append, ih hrest, lines_ended hpiece,
        withoutReturn_of_not_mem hreturn]

end FrameLog.Text
