import Mathlib
import FrameLog.Command.Payloads
import FrameLog.Proofs.Lines

/-!
# Values, one a line

A line that is not blank holds a value, and the first that does not is named by its number among all lines
(`jsonLines_exact`). Blank lines take part in the numbering only, so that they and the ends of lines do not matter to
the values.
-/

namespace FrameLog.Command

open Text (IsLines isBlankLine withReturns)

variable {ls more blanks : List (List Char)} {line text : List Char} {values others : List Json.Value}
  {number index : Nat} {problem : Json.Problem} {e : Stop}

/-- The value that a line holds, or why it holds none. -/
def readLine (line : List Char) : Except Json.Problem Json.Value := Json.readAll (Json.readValue Json.maxLevels) line

/-- The lines that have to hold a value each. -/
def filledLines (ls : List (List Char)) : List (List Char) := ls.filter fun line => !isBlankLine line

/-- The line is blank, or holds the value that it has to. -/
def Passes (line : List Char) : Prop := isBlankLine line ∨ ∃ value, readLine line = .ok value

/-- So many lines pass, and the next one does not. -/
structure FirstUnread (ls : List (List Char)) (index : Nat) (problem : Json.Problem) : Prop where
  earlier : ∀ line ∈ ls.take index, Passes line
  unread : ∃ line, ls[index]? = some line ∧ isBlankLine line = false ∧ readLine line = .error problem

/-! ## Line by line -/

theorem filledLines_append (ls more : List (List Char)) :
    filledLines (ls ++ more) = filledLines ls ++ filledLines more := List.filter_append ..

theorem filledLines_blank (h : ∀ line ∈ blanks, isBlankLine line) : filledLines blanks = [] := by
  rw [filledLines, List.filter_eq_nil_iff]
  intro line hline
  rw [h line hline]
  decide

theorem parseLines_blank (h : isBlankLine line) (number : Nat) (ls : List (List Char)) :
    parseLines number (line :: ls) = parseLines (number + 1) ls := by
  rw [parseLines, ← isBlankLine, if_pos h]

theorem parseLines_filled (h : isBlankLine line = false) (number : Nat) (ls : List (List Char)) :
    parseLines number (line :: ls) = match readLine line with
      | .error problem => .error (.failed (.parseLine number) (.json problem))
      | .ok value => (parseLines (number + 1) ls).map (value :: ·) := by
  rw [parseLines, ← isBlankLine, if_neg (Bool.eq_false_iff.mp h)]
  unfold readLine
  cases Json.readAll (Json.readValue Json.maxLevels) line <;> rfl

theorem parseLines_eq_ok : parseLines number ls = .ok values ↔ (filledLines ls).map readLine = values.map .ok := by
  induction ls generalizing number values with
  | nil => cases values <;> simp [parseLines, filledLines]
  | cons line ls ih =>
      cases hblank : isBlankLine line with
      | true => rw [parseLines_blank hblank, ih, filledLines, filledLines, List.filter_cons_of_neg (by simp [hblank])]
      | false =>
          rw [parseLines_filled hblank, filledLines, List.filter_cons_of_pos (by simp [hblank]), List.map_cons,
            ← filledLines]
          cases hread : readLine line with
          | error problem => cases values <;> simp
          | ok value =>
              cases values with
              | nil => cases parseLines (number + 1) ls <;> simp [Except.map]
              | cons first others =>
                  rw [List.map_cons, List.cons.injEq, Except.ok.injEq, ← @ih others (number + 1)]
                  cases parseLines (number + 1) ls <;> simp [Except.map]

/-! ## The first line that does not pass -/

theorem passes_or_unread (line : List Char) :
    Passes line ∨ isBlankLine line = false ∧ ∃ problem, readLine line = .error problem := by
  cases hblank : isBlankLine line with
  | true => exact .inl (.inl hblank)
  | false =>
      cases hread : readLine line with
      | ok value => exact .inl (.inr ⟨value, hread⟩)
      | error problem => exact .inr ⟨rfl, problem, rfl⟩

theorem parseLines_passes (h : Passes line) :
    parseLines number (line :: ls) = .error e ↔ parseLines (number + 1) ls = .error e := by
  cases hblank : isBlankLine line with
  | true => rw [parseLines_blank hblank]
  | false =>
      obtain hnot | ⟨value, hread⟩ := h
      · rw [hnot] at hblank
        cases hblank
      · rw [parseLines_filled hblank, hread]
        cases parseLines (number + 1) ls <;> simp [Except.map]

theorem firstUnread_passes (h : Passes line) :
    FirstUnread (line :: ls) index problem ↔ ∃ i, index = i + 1 ∧ FirstUnread ls i problem := by
  constructor
  · rintro ⟨hearlier, hunread⟩
    cases index with
    | zero =>
        obtain ⟨_, hline, hfilled, hread⟩ := hunread
        cases hline
        rcases h with hblank | ⟨value, hvalue⟩
        · cases hblank.symm.trans hfilled
        · cases hvalue.symm.trans hread
    | succ i =>
        rw [List.take_succ_cons, List.forall_mem_cons] at hearlier
        exact ⟨i, rfl, hearlier.2, hunread⟩
  · rintro ⟨i, rfl, hearlier, hunread⟩
    exact ⟨List.forall_mem_cons.mpr ⟨h, hearlier⟩, hunread⟩

theorem firstUnread_here (hfilled : isBlankLine line = false) (hread : readLine line = .error problem)
    {other : Json.Problem} : FirstUnread (line :: ls) index other ↔ index = 0 ∧ other = problem := by
  constructor
  · rintro ⟨hearlier, _, hline, -, hother⟩
    cases index with
    | zero =>
        cases hline
        cases hread.symm.trans hother
        exact ⟨rfl, rfl⟩
    | succ i =>
        rcases hearlier line (List.mem_cons_self ..) with hblank | ⟨value, hvalue⟩
        · cases hblank.symm.trans hfilled
        · cases hvalue.symm.trans hread
  · rintro ⟨rfl, rfl⟩
    exact ⟨List.forall_mem_nil _, line, rfl, hfilled, hread⟩

theorem parseLines_eq_error : parseLines number ls = .error e ↔
    ∃ index problem, FirstUnread ls index problem ∧ e = .failed (.parseLine (number + index)) (.json problem) := by
  induction ls generalizing number with
  | nil =>
      constructor
      · intro h
        cases h
      · rintro ⟨index, problem, ⟨-, line, hline, -⟩, -⟩
        cases hline
  | cons line ls ih =>
      rcases passes_or_unread line with hpasses | ⟨hfilled, problem, hread⟩
      · simp only [parseLines_passes hpasses, ih, firstUnread_passes hpasses]
        constructor
        · rintro ⟨i, problem, hfirst, rfl⟩
          exact ⟨i + 1, problem, ⟨i, rfl, hfirst⟩, by rw [Nat.add_assoc, Nat.add_comm 1]⟩
        · rintro ⟨_, problem, ⟨i, rfl, hfirst⟩, rfl⟩
          exact ⟨i, problem, hfirst, by rw [Nat.add_assoc, Nat.add_comm 1]⟩
      · simp only [parseLines_filled hfilled, hread, firstUnread_here hfilled hread]
        constructor
        · intro h
          cases h
          exact ⟨0, problem, ⟨rfl, rfl⟩, rfl⟩
        · rintro ⟨_, _, ⟨rfl, rfl⟩, rfl⟩
          rfl

/-! ## Payloads of either format -/

/-- The text holds these values: an array of them, or each on a line of its own. -/
inductive Parsed (text : List Char) : Format → List Json.Value → Prop
  | array {values : List Json.Value} (read : Json.readAll Json.readArray text = .ok values) : Parsed text .json values
  | lines {values : List Json.Value} (read : (filledLines (Text.lines text)).map readLine = values.map .ok) :
      Parsed text .jsonLines values

/-- The text is no array, or has a line that holds no value. -/
inductive Unparsed (text : List Char) : Format → Stop → Prop
  | array {problem : Json.Problem} (broken : Json.readAll Json.readArray text = .error problem) :
      Unparsed text .json (.failed .parseArray (.json problem))
  | line {index : Nat} {problem : Json.Problem} (first : FirstUnread (Text.lines text) index problem) :
      Unparsed text .jsonLines (.failed (.parseLine (1 + index)) (.json problem))

theorem parsePayloads_eq_ok {format : Format} : parsePayloads text format = .ok values ↔ Parsed text format values := by
  cases format with
  | json =>
      rw [parsePayloads]
      constructor
      · intro h
        split at h
        · cases h
        · next hread =>
            cases h
            exact .array hread
      · intro h
        cases h with
        | array hread => rw [hread]
  | jsonLines =>
      rw [parsePayloads, parseLines_eq_ok]
      constructor
      · exact .lines
      · intro h
        cases h with
        | lines hread => exact hread

theorem parsePayloads_eq_error {format : Format} : parsePayloads text format = .error e ↔ Unparsed text format e := by
  cases format with
  | json =>
      rw [parsePayloads]
      constructor
      · intro h
        split at h
        · next hbroken =>
            cases h
            exact .array hbroken
        · cases h
      · intro h
        cases h with
        | array hbroken => rw [hbroken]
  | jsonLines =>
      rw [parsePayloads, parseLines_eq_error]
      constructor
      · rintro ⟨index, problem, hfirst, rfl⟩
        exact .line hfirst
      · intro h
        cases h with
        | line hfirst => exact ⟨_, _, hfirst, rfl⟩

/-! ## Texts with the same values -/

theorem parseLines_append_blank (h : isBlankLine line) (number : Nat) (ls : List (List Char)) :
    parseLines number (ls ++ [line]) = parseLines number ls := by
  induction ls generalizing number with
  | nil => rw [List.nil_append, parseLines_blank h, parseLines, parseLines]
  | cons first ls ih =>
      rw [List.cons_append]
      cases hfirst : isBlankLine first with
      | true => rw [parseLines_blank hfirst, parseLines_blank hfirst, ih]
      | false => rw [parseLines_filled hfirst, parseLines_filled hfirst, ih]

theorem parsePayloads_feed (h : '\r' ∉ text) :
    parsePayloads (text ++ ['\n']) .jsonLines = parsePayloads text .jsonLines := by
  rw [parsePayloads, parsePayloads]
  rcases Text.lines_feed h with hsame | hmore
  · rw [hsame]
  · rw [hmore, parseLines_append_blank rfl]

theorem filledLines_blanks {before after blanks : List Char} (hstart : before = [] ∨ before.getLast? = some '\n')
    (hblanks : isBlankLine blanks) : filledLines (Text.lines (before ++ blanks ++ '\n' :: after)) =
      filledLines (Text.lines (before ++ after)) := by
  have hended : isBlankLine (blanks ++ ['\n']) := by
    rw [isBlankLine, List.all_append, Bool.and_eq_true]
    exact ⟨hblanks, rfl⟩
  have hskip : filledLines (Text.lines (blanks ++ '\n' :: after)) = filledLines (Text.lines after) := by
    rw [Text.lines_append, filledLines_append, filledLines_blank (Text.isBlankLine_of_mem_lines hended), List.nil_append]
  rcases hstart with rfl | hlast
  · exact hskip
  · obtain ⟨front, rfl⟩ := List.getLast?_eq_some_iff.mp hlast
    simp only [List.append_assoc, List.cons_append, List.nil_append]
    rw [Text.lines_append, filledLines_append, hskip, Text.lines_append front after, filledLines_append]

theorem parsePayloads_append {xs ys : List Char} (hreturn : '\r' ∉ xs)
    (hxs : parsePayloads xs .jsonLines = .ok values) (hys : parsePayloads ys .jsonLines = .ok others) :
    parsePayloads (xs ++ '\n' :: ys) .jsonLines = .ok (values ++ others) := by
  rw [← parsePayloads_feed hreturn] at hxs
  rw [parsePayloads, parseLines_eq_ok] at hxs hys ⊢
  rw [Text.lines_append, filledLines_append, List.map_append, hxs, hys, List.map_append]

/-- A text falls into lines in one way. All those that are not blank hold a value, and these are the values in order;
or the first that does not is the fault, under its number among all lines. Blank lines between others do not matter to
the values. Where there is no carriage return, nor does a line feed at the end or a return before every line feed, and
two texts with a line feed between them have the values of the one and then those of the other. -/
theorem jsonLines_exact :
    (∀ text, ∃ ls, IsLines text ls ∧ (∀ other, IsLines text other → other = ls) ∧
      (∀ values, parsePayloads text .jsonLines = .ok values ↔ (filledLines ls).map readLine = values.map .ok) ∧
      ∀ e, parsePayloads text .jsonLines = .error e ↔
        ∃ index problem, FirstUnread ls index problem ∧ e = .failed (.parseLine (index + 1)) (.json problem)) ∧
    (∀ before blanks after values, before = [] ∨ before.getLast? = some '\n' → isBlankLine blanks →
      (parsePayloads (before ++ blanks ++ '\n' :: after) .jsonLines = .ok values ↔
        parsePayloads (before ++ after) .jsonLines = .ok values)) ∧
    (∀ text, '\r' ∉ text → parsePayloads (text ++ ['\n']) .jsonLines = parsePayloads text .jsonLines ∧
      parsePayloads (withReturns text) .jsonLines = parsePayloads text .jsonLines) ∧
    ∀ xs ys values others, '\r' ∉ xs → parsePayloads xs .jsonLines = .ok values →
      parsePayloads ys .jsonLines = .ok others → parsePayloads (xs ++ '\n' :: ys) .jsonLines = .ok (values ++ others) := by
  refine ⟨fun text => ⟨Text.lines text, Text.isLines_lines text, fun other h => ?_, fun values => ?_, fun e => ?_⟩, ?_,
    fun text hreturn => ⟨parsePayloads_feed hreturn, ?_⟩, fun xs ys values others => parsePayloads_append⟩
  · exact (Text.isLines_iff.mp h).symm
  · exact parseLines_eq_ok
  · simp only [parsePayloads, parseLines_eq_error, Nat.add_comm 1]
  · intro before blanks after values hstart hblanks
    rw [parsePayloads, parsePayloads, parseLines_eq_ok, parseLines_eq_ok, filledLines_blanks hstart hblanks]
  · rw [parsePayloads, parsePayloads, Text.lines_withReturns hreturn]

/-- Two numbers, one a line: with lines of white space of three kinds between them, and put together from two texts. -/
theorem jsonLines_exact_two_numbers :
    parsePayloads "7\n\t\n\u2003 \n8\n".toList .jsonLines = .ok [.number (.natural 7), .number (.natural 8)] ∧
      parsePayloads ("7".toList ++ '\n' :: "8".toList) .jsonLines = .ok [.number (.natural 7), .number (.natural 8)] ∧
      parsePayloads (withReturns "7\n8".toList) .jsonLines = .ok [.number (.natural 7), .number (.natural 8)] := by
  have hfirst : parsePayloads "7".toList .jsonLines = .ok [.number (.natural 7)] := by cbv
  have hsecond : parsePayloads "8".toList .jsonLines = .ok [.number (.natural 8)] := by cbv
  have hboth : parsePayloads "7\n8\n".toList .jsonLines = .ok [.number (.natural 7), .number (.natural 8)] := by cbv
  obtain ⟨-, hblanks, hreturn, hjoin⟩ := jsonLines_exact
  have htogether := hjoin "7".toList "8".toList _ _ (by decide) hfirst hsecond
  exact ⟨(hblanks "7\n".toList "\t\n\u2003 ".toList "8\n".toList _ (.inr (by decide)) (by decide)).mpr hboth, htogether,
    (hreturn _ (by decide)).2.trans htogether⟩

end FrameLog.Command
