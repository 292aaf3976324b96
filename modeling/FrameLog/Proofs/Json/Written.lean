import FrameLog.Json.Writer
import FrameLog.Proofs.Json.Quoted
import FrameLog.Proofs.Json.Record

/-!
# What is written is read back

A value of strings, whole numbers and words that is written is read back, nested as deep as is read: with the fields of
its objects in the order of their keys (`readsBack_writeIndented`).
-/

namespace FrameLog.Json

variable {α : Type} {text rest : List Char} {x : α} {levels : Nat}

/-- Behind space, and in front of whatever does not go on with a number, the text is read as that. -/
def ReadsBack (r : Reader α) (text : List Char) (x : α) : Prop :=
  ∀ gap rest, gap.all isSpace → Ends rest → Gives r (gap ++ text ++ rest) x rest

/-! ## Space -/

theorem skipSpace_append {gap : List Char} (h : gap.all isSpace) (text : List Char) :
    skipSpace (gap ++ text) = skipSpace text := by
  rw [skipSpace, List.dropWhile_append_of_pos (List.all_eq_true.mp h), skipSpace]

theorem skipSpace_cons {c : Char} (h : isSpace c = false) : skipSpace (c :: text) = c :: text :=
  List.dropWhile_cons_of_neg (by simp [h])

theorem ends_append {gap : List Char} (hgap : gap.all isSpace) (h : Ends rest) : Ends (gap ++ rest) := by
  cases gap with
  | nil => exact h
  | cons c gap =>
      intro d hd
      obtain rfl : c = d := by simpa using hd
      have hc : isSpace c := List.all_eq_true.mp hgap c List.mem_cons_self
      simp only [isSpace, Bool.or_eq_true, decide_eq_true_eq] at hc
      rcases hc with ((rfl | rfl) | rfl) | rfl <;> decide

theorem ends_cons {c : Char} (h : c.isDigit = false ∧ c ≠ '.' ∧ c ≠ 'e' ∧ c ≠ 'E') : Ends (c :: rest) := by
  intro d hd
  obtain rfl : c = d := by simpa using hd
  exact h

/-! ## Arrays -/

variable {item : Reader α} {read xs : List α} {later : List Char}

theorem gives_readMoreItems_stop (h : skipSpace text = ']' :: rest) :
    Gives (readMoreItems item read) text read.reverse rest := by
  unfold Gives readMoreItems
  split <;> simp_all

theorem gives_readMoreItems_cons {mid : List Char} (h : skipSpace text = ',' :: later) (hitem : Gives item later x mid)
    (hmore : Gives (readMoreItems item (x :: read)) mid xs rest) : Gives (readMoreItems item read) text xs rest := by
  obtain ⟨_, hitem⟩ := hitem
  obtain ⟨_, hmore⟩ := hmore
  unfold Gives readMoreItems
  split
  · simp_all
  · simp_all
  · next later' hcomma =>
      cases h.symm.trans hcomma
      simp [hitem, hmore, Consumed.widen]
  · simp_all

theorem gives_readItems_nil (h : skipSpace text = ']' :: rest) : Gives (readItems item) text [] rest := by
  unfold Gives readItems
  split <;> simp_all

theorem gives_readItems_cons {mid : List Char} (hfirst : ∀ more, skipSpace text ≠ ']' :: more)
    (hitem : Gives item text x mid) (hmore : Gives (readMoreItems item [x]) mid xs rest) :
    Gives (readItems item) text xs rest := by
  obtain ⟨_, hitem⟩ := hitem
  obtain ⟨_, hmore⟩ := hmore
  unfold Gives readItems
  split
  · next more hstop => exact absurd hstop (hfirst more)
  · simp [hitem, hmore, Consumed.widen]

/-! ## Blocks -/

/-- What stands in a block behind its first text: the others behind a comma and space, and the closing bracket. -/
def blockTail (close : Char) (gap last : List Char) (texts : List (List Char)) : List Char :=
  texts.flatMap (fun text => ',' :: gap ++ text) ++ last ++ [close]

theorem separate_cons (separator text : List Char) (texts : List (List Char)) :
    separate separator (text :: texts) = text ++ texts.flatMap fun text => separator ++ text := by
  induction texts generalizing text with
  | nil => simp [separate]
  | cons next texts ih => rw [separate, ih, List.flatMap_cons, List.append_assoc, List.append_assoc]; simp

theorem writeBlock_cons (opening close : Char) (outer inner text : List Char) (texts : List (List Char)) :
    writeBlock opening close outer inner (text :: texts) =
      opening :: ('\n' :: inner ++ text ++ blockTail close ('\n' :: inner) ('\n' :: outer) texts) := by
  simp [writeBlock, separate_cons, blockTail]

variable {gap last : List Char} {close : Char} {texts : List (List Char)}

theorem ends_blockTail (hlast : last.all isSpace) (hclose : Ends (close :: rest)) :
    Ends (blockTail close gap last texts ++ rest) := by
  cases texts with
  | nil => simpa [blockTail] using ends_append hlast hclose
  | cons text texts => exact ends_cons (by decide)

/-- In an array each value is read from its own text. -/
theorem gives_readMoreItems (hgap : gap.all isSpace) (hlast : last.all isSpace)
    (h : List.Forall₂ (ReadsBack item) texts xs) :
    Gives (readMoreItems item read) (blockTail ']' gap last texts ++ rest) (read.reverse ++ xs) rest := by
  induction h generalizing read with
  | nil =>
      have hstop : skipSpace (blockTail ']' gap last [] ++ rest) = ']' :: rest := by
        simp only [blockTail, List.flatMap_nil, List.nil_append, List.append_assoc, List.singleton_append]
        rw [skipSpace_append hlast, skipSpace_cons rfl]
      rw [List.append_nil]
      exact gives_readMoreItems_stop hstop
  | @cons text x texts xs hread _ ih =>
      have htext : blockTail ']' gap last (text :: texts) ++ rest =
          ',' :: (gap ++ text ++ (blockTail ']' gap last texts ++ rest)) := by simp [blockTail]
      have hmore := @ih (x :: read)
      rw [List.reverse_cons, List.append_assoc, List.singleton_append] at hmore
      rw [htext]
      have hends : Ends (blockTail ']' gap last texts ++ rest) := ends_blockTail hlast (ends_cons (by decide))
      exact gives_readMoreItems_cons (skipSpace_cons rfl) (hread gap _ hgap hends) hmore

theorem all_newline {margin : List Char} (h : margin.all isSpace) : ('\n' :: margin).all isSpace := by
  simpa [isSpace] using h

theorem gives_readItems {outer inner : List Char} (houter : outer.all isSpace) (hinner : inner.all isSpace)
    (hitem : ∀ {text x rest}, Gives item text x rest → ∀ more, skipSpace text ≠ ']' :: more)
    (h : List.Forall₂ (ReadsBack item) texts xs) (rest : List Char) :
    ∃ body, writeBlock '[' ']' outer inner texts = '[' :: body ∧ Gives (readItems item) (body ++ rest) xs rest := by
  cases h with
  | nil => exact ⟨[']'], rfl, gives_readItems_nil (skipSpace_cons rfl)⟩
  | @cons text x texts xs hread hothers =>
      refine ⟨_, writeBlock_cons .., ?_⟩
      have hfirst := hread _ (blockTail ']' ('\n' :: inner) ('\n' :: outer) texts ++ rest) (all_newline hinner)
        (ends_blockTail (all_newline houter) (ends_cons (by decide)))
      rw [List.append_assoc]
      exact gives_readItems_cons (hitem hfirst) hfirst
        (gives_readMoreItems (all_newline hinner) (all_newline houter) hothers)

/-! ## Objects -/

variable {r : Reader Value} {fields : List (String × List Char × Value)}

/-- A member as it is written in a block. -/
def fieldText (field : String × List Char × Value) : List Char := writeQuoted field.1 ++ ':' :: ' ' :: field.2.1

/-- The members with the values that are read from their texts, put in the order of the keys. -/
def collect (read : List (String × Value)) (fields : List (String × List Char × Value)) : List (String × Value) :=
  fields.foldl (fun read field => insertField field.1 field.2.2 read) read

/-- A member is read as a value, whatever its key is, and put among those that are read. -/
def valueMember (r : Reader Value) (key : String) (read : List (String × Value)) :
    Except Problem (Reader (List (String × Value))) :=
  .ok fun input => (r input).map (.map fun value => insertField key value read)

theorem behindKey_fieldText (field : String × List Char × Value) (hgap : gap.all isSpace) : Member.BehindKey
    ⟨field.1, ' ' :: field.2.1 ++ later, later⟩ (gap ++ fieldText field ++ later) := by
  refine ⟨field.1.toList.flatMap escapeChar ++ '"' :: (':' :: ' ' :: field.2.1 ++ later), _, ?_, gives_readQuoted field.1,
    skipSpace_cons rfl⟩
  rw [List.append_assoc, skipSpace_append hgap, fieldText, writeQuoted]
  simp only [List.cons_append, List.append_assoc, List.nil_append]
  exact skipSpace_cons rfl

theorem steps_cons {field : String × List Char × Value} {ms : List Member} {read all : List (String × Value)}
    (h : ReadsBack r field.2.1 field.2.2) (hends : Ends later)
    (hsteps : Steps (valueMember r) (insertField field.1 field.2.2 read) ms all) :
    Steps (valueMember r) read (⟨field.1, ' ' :: field.2.1 ++ later, later⟩ :: ms) all :=
  .cons rfl (yields_map.mpr ⟨_, h [' '] later rfl hends, rfl⟩) hsteps

/-- In an object the value of each member is read from its own text, and all of them one after another. -/
theorem continued_blockTail (hgap : gap.all isSpace) (hlast : last.all isSpace)
    (h : ∀ field ∈ fields, ReadsBack r field.2.1 field.2.2) (read : List (String × Value)) :
    ∃ ms, Continued Member.BehindKey '\x7d' (blockTail '\x7d' gap last (fields.map fieldText) ++ rest) ms rest ∧
      Steps (valueMember r) read ms (collect read fields) := by
  induction fields generalizing read with
  | nil =>
      have hstop : skipSpace (blockTail '\x7d' gap last [] ++ rest) = '\x7d' :: rest := by
        simp only [blockTail, List.flatMap_nil, List.nil_append, List.append_assoc, List.singleton_append]
        rw [skipSpace_append hlast, skipSpace_cons rfl]
      exact ⟨[], .stop hstop, .nil⟩
  | cons field fields ih =>
      obtain ⟨ms, hrest, hsteps⟩ := ih (fun f hf => h f (List.mem_cons_of_mem _ hf)) (insertField field.1 field.2.2 read)
      have htext : blockTail '\x7d' gap last ((field :: fields).map fieldText) ++ rest =
          ',' :: (gap ++ fieldText field ++ (blockTail '\x7d' gap last (fields.map fieldText) ++ rest)) := by
        simp [blockTail]
      rw [htext]
      exact ⟨_, .more (skipSpace_cons rfl) (behindKey_fieldText field hgap) hrest,
        steps_cons (h field List.mem_cons_self) (ends_blockTail hlast (ends_cons (by decide))) hsteps⟩

theorem gives_readObject_block {outer inner : List Char} (houter : outer.all isSpace) (hinner : inner.all isSpace)
    (h : ∀ field ∈ fields, ReadsBack r field.2.1 field.2.2) (rest : List Char) :
    ∃ body, writeBlock '\x7b' '\x7d' outer inner (fields.map fieldText) = '\x7b' :: body ∧
      Gives (readObject (valueMember r) []) (body ++ rest) (collect [] fields) rest := by
  cases fields with
  | nil => exact ⟨['\x7d'], rfl, gives_readObject.mpr ⟨[], .none (skipSpace_cons rfl), .nil⟩⟩
  | cons field fields =>
      refine ⟨_, writeBlock_cons .., gives_readObject.mpr ?_⟩
      obtain ⟨ms, hrest, hsteps⟩ := continued_blockTail (all_newline hinner) (all_newline houter)
        (fun f hf => h f (List.mem_cons_of_mem _ hf)) (insertField field.1 field.2.2 [])
      rw [List.append_assoc]
      exact ⟨_, .some (behindKey_fieldText field (all_newline hinner)) hrest, steps_cons (h field List.mem_cons_self)
        (ends_blockTail (all_newline houter) (ends_cons (by decide))) hsteps⟩

/-! ## Values -/

mutual
/-- The value with the fields of its objects in the order in which they are read, the last of several with one key. -/
def Value.ordered : Value → Value
  | .array items => .array (orderedItems items)
  | .object fields => .object (orderedFields [] fields)
  | value => value

def orderedItems : List Value → List Value
  | [] => []
  | item :: rest => item.ordered :: orderedItems rest

def orderedFields (read : List (String × Value)) : List (String × Value) → List (String × Value)
  | [] => read
  | (key, value) :: rest => orderedFields (insertField key value.ordered read) rest
end

/-- A value whose numbers are whole ones of a word, with no more levels than that. -/
def Value.Plain : Nat → Value → Prop
  | _, .number x => ∃ n ≤ Word.limit, x = Number.natural n
  | 0, .array _ | 0, .object _ => False
  | levels + 1, .array items => ∀ item ∈ items, item.Plain levels
  | levels + 1, .object fields => ∀ field ∈ fields, field.2.Plain levels
  | _, _ => True

theorem orderedItems_eq (items : List Value) : orderedItems items = items.map Value.ordered := by
  induction items with
  | nil => rfl
  | cons item items ih => rw [orderedItems, ih, List.map_cons]

theorem orderedFields_eq (read fields : List (String × Value)) :
    orderedFields read fields = fields.foldl (fun read field => insertField field.1 field.2.ordered read) read := by
  induction fields generalizing read with
  | nil => rfl
  | cons field fields ih => rw [orderedFields, ih, List.foldl_cons]

theorem indentItems_eq (margin : List Char) (items : List Value) :
    indentItems margin items = items.map (writeIndented margin) := by
  induction items with
  | nil => rfl
  | cons item items ih => rw [indentItems, ih, List.map_cons]

theorem indentFields_eq (margin : List Char) (fields : List (String × Value)) : indentFields margin fields =
    (fields.map fun field => (field.1, writeIndented margin field.2, field.2.ordered)).map fieldText := by
  induction fields with
  | nil => rfl
  | cons field fields ih => rw [indentFields, ih, List.map_cons, List.map_cons, fieldText]

/-- A value that begins with no bracket is read alike, however many levels there may be. -/
theorem gives_readValue_scalar {c : Char} {more : List Char} {value : Value} (hc : skipSpace text = c :: more)
    (hbracket : c ≠ '[' ∧ c ≠ '\x7b') :
    Gives (readValue levels) text value rest ↔ Yields (readScalar c more) value rest := by
  cases levels with
  | zero =>
      rw [readValue, gives_spaced]
      simp [hc, hbracket]
  | succ levels =>
      rw [readValue, gives_spaced]
      simp only [hc, List.cons.injEq]
      constructor
      · rintro ⟨d, later, ⟨rfl, rfl⟩, hread⟩
        split at hread
        · exact absurd rfl hbracket.1
        · exact absurd rfl hbracket.2
        · exact hread
      · intro hread
        refine ⟨c, more, ⟨rfl, rfl⟩, ?_⟩
        split
        · exact absurd rfl hbracket.1
        · exact absurd rfl hbracket.2
        · exact hread

theorem gives_readValue_ne {value : Value} (h : Gives (readValue levels) text value rest) (more : List Char) :
    skipSpace text ≠ ']' :: more := by
  intro hbracket
  rw [gives_readValue_scalar hbracket (by decide)] at h
  simp [readScalar, startsNumber] at h

theorem readsBack_of_scalar {c : Char} {more : List Char} {value : Value} (hspace : isSpace c = false)
    (hbracket : c ≠ '[' ∧ c ≠ '\x7b') (h : ∀ rest, Ends rest → Yields (readScalar c (more ++ rest)) value rest) :
    ReadsBack (readValue levels) (c :: more) value := by
  intro gap rest hgap hends
  have hc : skipSpace (gap ++ c :: more ++ rest) = c :: (more ++ rest) := by
    rw [List.append_assoc, skipSpace_append hgap, List.cons_append, skipSpace_cons hspace]
  exact (gives_readValue_scalar hc hbracket).mpr (h rest hends)

theorem readsBack_number {n : Nat} (hn : n ≤ Word.limit) :
    ReadsBack (readValue levels) (Nat.toDigits 10 n) (.number (.natural n)) := by
  obtain ⟨d, ds, hdigits⟩ := List.exists_cons_of_ne_nil (Nat.toDigits_ne_nil (n := n) (b := 10))
  have hd : d.isDigit :=
    Nat.isDigit_of_mem_toDigits (by decide) (by decide) (hdigits ▸ List.mem_cons_self)
  have hne {c : Char} (hc : c.isDigit = false) : d ≠ c := by
    rintro rfl
    exact absurd hd (by simp [hc])
  rw [hdigits]
  refine readsBack_of_scalar ?_ ⟨hne (by decide), hne (by decide)⟩ fun rest hends => ?_
  · simp [isSpace, hne]
  · have hnumber : Gives readNumber (d :: (ds ++ rest)) (.natural n) rest :=
      gives_readNumber_natural.mpr ⟨by rw [hdigits]; rfl, hends, hn⟩
    unfold readScalar
    split
    · exact absurd rfl (hne (by decide))
    · exact absurd rfl (hne (by decide))
    · exact absurd rfl (hne (by decide))
    · exact absurd rfl (hne (by decide))
    · rw [if_pos (startsNumber_of_gives hnumber)]
      exact yields_map.mpr ⟨_, hnumber, rfl⟩

theorem readsBack_scalar {margin : List Char} {value : Value} (h : value.Plain 0) :
    ReadsBack (readValue levels) (writeIndented margin value) value.ordered := by
  cases value with
  | null => exact readsBack_of_scalar rfl (by decide) fun rest _ => yields_behind.mpr (gives_readWord.mpr ⟨rfl, rfl⟩)
  | bool b =>
      cases b with
      | true => exact readsBack_of_scalar rfl (by decide) fun rest _ => yields_behind.mpr (gives_readWord.mpr ⟨rfl, rfl⟩)
      | false => exact readsBack_of_scalar rfl (by decide) fun rest _ => yields_behind.mpr (gives_readWord.mpr ⟨rfl, rfl⟩)
  | string s =>
      refine readsBack_of_scalar rfl (by decide) fun rest _ => yields_behind.mpr (yields_map.mpr ⟨s, ?_, rfl⟩)
      show Gives readQuoted (s.toList.flatMap escapeChar ++ ['"'] ++ rest) s rest
      rw [List.append_assoc]
      exact gives_readQuoted s
  | number x =>
      obtain ⟨n, hn, rfl⟩ := h
      exact readsBack_number hn
  | array items => exact absurd h not_false
  | object fields => exact absurd h not_false

/-- A value that is written is read back. -/
theorem readsBack_writeIndented {margin : List Char} {value : Value} (hmargin : margin.all isSpace)
    (h : value.Plain levels) : ReadsBack (readValue levels) (writeIndented margin value) value.ordered := by
  induction levels generalizing margin value with
  | zero => exact readsBack_scalar h
  | succ levels ih =>
      have hinner : (margin ++ [' ', ' ']).all isSpace := by
        rw [List.all_append, hmargin]
        rfl
      cases value with
      | array items =>
          have hitems : List.Forall₂ (ReadsBack (readValue levels)) (indentItems (margin ++ [' ', ' ']) items)
              (orderedItems items) := by
            rw [indentItems_eq, orderedItems_eq, List.forall₂_map_left_iff, List.forall₂_map_right_iff, List.forall₂_same]
            exact fun item hitem => ih hinner (h item hitem)
          intro gap rest hgap hends
          obtain ⟨body, hbody, hread⟩ := gives_readItems hmargin hinner gives_readValue_ne hitems rest
          rw [writeIndented, hbody, List.append_assoc, readValue, gives_spaced]
          refine ⟨'[', body ++ rest, ?_, yields_behind.mpr (yields_map.mpr ⟨_, hread, rfl⟩)⟩
          rw [skipSpace_append hgap, List.cons_append, skipSpace_cons rfl]
      | object fields =>
          have hfields : ∀ field ∈ fields.map fun field =>
              (field.1, writeIndented (margin ++ [' ', ' ']) field.2, field.2.ordered),
              ReadsBack (readValue levels) field.2.1 field.2.2 := by
            intro field hfield
            obtain ⟨f, hf, rfl⟩ := List.mem_map.mp hfield
            exact ih hinner (h f hf)
          intro gap rest hgap hends
          obtain ⟨body, hbody, hread⟩ := gives_readObject_block hmargin hinner hfields rest
          rw [collect, List.foldl_map, ← orderedFields_eq] at hread
          rw [writeIndented, indentFields_eq, hbody, List.append_assoc, readValue, gives_spaced]
          refine ⟨'\x7b', body ++ rest, ?_, yields_behind.mpr (yields_map.mpr ⟨_, hread, rfl⟩)⟩
          rw [skipSpace_append hgap, List.cons_append, skipSpace_cons rfl]
      | null => exact readsBack_scalar h
      | bool b => exact readsBack_scalar h
      | string s => exact readsBack_scalar h
      | number x => exact readsBack_scalar h

/-- A whole text that is written, and a line feed behind it, is read back. -/
theorem readAll_writeIndented {value : Value} (h : value.Plain levels) :
    readAll (readValue levels) (writeIndented [] value ++ ['\n']) = .ok value.ordered :=
  readAll_eq_ok.mpr ⟨['\n'], readsBack_writeIndented rfl h [] ['\n'] rfl (ends_cons (by decide)), rfl⟩

end FrameLog.Json
