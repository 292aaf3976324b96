import Mathlib
import FrameLog.Failure
import FrameLog.Json.Record

/-!
# What readers give

A reader gives a value and leaves a rest. For whole numbers and for words it is said of the text alone when that is
so: the number is the one whose digits stand there (`gives_readNatural`).
-/

namespace FrameLog.Json

variable {α β : Type} {text later rest ds : List Char} {x : α} {n m limit : Nat}

/-- What is read is `x`, and `rest` is what follows it. -/
def Yields (read : Except Problem (Consumed α text)) (x : α) (rest : List Char) : Prop :=
  ∃ h, read = .ok ⟨x, rest, h⟩

/-- From the front of the text `r` reads `x`, and `rest` is what follows. -/
abbrev Gives (r : Reader α) (text : List Char) (x : α) (rest : List Char) : Prop := Yields (r text) x rest

section
variable {read : Except Problem (Consumed α text)}

theorem Yields.unique {y : α} {rest' : List Char} (h : Yields read x rest) (h' : Yields read y rest') :
    x = y ∧ rest = rest' := by
  obtain ⟨_, hx⟩ := h
  obtain ⟨_, hy⟩ := h'
  cases hx.symm.trans hy
  exact ⟨rfl, rfl⟩

theorem Yields.shorter (h : Yields read x rest) : rest.length < text.length := h.1

@[simp] theorem not_yields_nil {read : Except Problem (Consumed α [])} : ¬ Yields read x rest :=
  fun h => absurd h.shorter (Nat.not_lt_zero _)

theorem yields_of_eq_ok {c : Consumed α text} (h : read = .ok c) : Yields read c.value c.rest := ⟨c.shorter, h⟩

@[simp] theorem yields_ok {c : Consumed α text} : Yields (.ok c) x rest ↔ c.value = x ∧ c.rest = rest := by
  obtain ⟨y, left, h⟩ := c
  constructor
  · rintro ⟨_, hc⟩
    cases hc
    exact ⟨rfl, rfl⟩
  · rintro ⟨rfl, rfl⟩
    exact ⟨h, rfl⟩

@[simp] theorem not_yields_error {e : Problem} : ¬ Yields (.error e : Except Problem (Consumed α text)) x rest := by
  rintro ⟨_, h⟩
  cases h

@[simp] theorem yields_map {f : α → β} {y : β} :
    Yields (read.map (.map f)) y rest ↔ ∃ x, Yields read x rest ∧ f x = y := by
  cases read with
  | error e => simp [Except.map]
  | ok c =>
      simp only [Except.map, yields_ok, Consumed.map]
      exact ⟨fun ⟨hf, hrest⟩ => ⟨c.value, ⟨rfl, hrest⟩, hf⟩, fun ⟨_, ⟨hx, hrest⟩, hf⟩ => ⟨hx ▸ hf, hrest⟩⟩

@[simp] theorem yields_widen {h : text.length ≤ later.length} :
    Yields (read.map (.widen h)) x rest ↔ Yields read x rest := by
  cases read <;> simp [Except.map, Consumed.widen]

@[simp] theorem yields_behind {c : Char} :
    Yields (read.map (Consumed.behind (c := c))) x rest ↔ Yields read x rest :=
  yields_widen (h := Nat.le_succ _)

end

theorem readAll_eq_ok {r : Reader α} : readAll r text = .ok x ↔ ∃ rest, Gives r text x rest ∧ skipSpace rest = [] := by
  unfold readAll Gives
  cases r text with
  | error e => simp
  | ok c =>
      simp only [yields_ok, List.isEmpty_iff]
      constructor
      · intro h
        split at h
        · next hend => exact ⟨c.rest, ⟨Except.ok.inj h, rfl⟩, hend⟩
        · cases h
      · rintro ⟨rest, ⟨rfl, rfl⟩, hend⟩
        rw [if_pos hend]

theorem gives_spaced {r : (c : Char) → (rest : List Char) → Except Problem (Consumed α (c :: rest))} :
    Gives (spaced r) text x rest ↔ ∃ c more, skipSpace text = c :: more ∧ Yields (r c more) x rest := by
  unfold Gives spaced
  split
  · next hempty => simp [hempty]
  · next c more hfound => simp [hfound, and_assoc]

theorem gives_readColon : Gives readColon text () rest ↔ skipSpace text = ':' :: rest := by
  rw [readColon, gives_spaced]
  constructor
  · rintro ⟨c, more, hfound, hyields⟩
    split at hyields
    · next hcolon => simp_all [Consumed.one]
    · simp at hyields
  · intro hfound
    exact ⟨_, _, hfound, by simp [Consumed.one]⟩

/-! ## Digits -/

theorem le_ofDigitChars (ds : List Char) (n : Nat) : n ≤ Nat.ofDigitChars 10 ds n := by
  induction ds generalizing n with
  | nil => simp
  | cons d ds ih =>
      rw [Nat.ofDigitChars_cons]
      exact Nat.le_trans (by omega) (ih _)

theorem digitChar_of_isDigit {c : Char} (h : c.isDigit) : ∃ d < 10, d.digitChar = c := by
  have hbounds : 48 ≤ c.toNat ∧ c.toNat ≤ 57 := by
    simpa using Char.isDigit_iff_toNat.mp h
  refine ⟨c.toNat - 48, by omega, Char.toNat_inj.mp ?_⟩
  rw [Nat.toNat_digitChar_of_lt_ten (by omega)]
  omega

/-- Digits are those of the number that they make, unless they begin with a zero that is not the only one. -/
theorem toDigits_ofDigitChars (hdigits : ∀ c ∈ ds, c.isDigit) (hne : ds ≠ [])
    (hzero : ds.length = 1 ∨ ds.head? ≠ some '0') : Nat.toDigits 10 (Nat.ofDigitChars 10 ds 0) = ds := by
  induction ds using List.reverseRecOn with
  | nil => exact absurd rfl hne
  | append_singleton ds c ih =>
      obtain ⟨d, hd, rfl⟩ := digitChar_of_isDigit (hdigits c (by simp))
      rw [Nat.ofDigitChars_append, Nat.ofDigitChars_cons_digitChar_of_lt_ten hd, Nat.ofDigitChars_nil]
      rcases ds with - | ⟨e, es⟩
      · rw [Nat.ofDigitChars_nil, Nat.mul_zero, Nat.zero_add, Nat.toDigits_of_lt_base hd, List.nil_append]
      · have hhead : (e :: es).head? ≠ some '0' := by simpa using hzero
        have ih := ih (fun c hc => hdigits c (List.mem_append_left _ hc)) (List.cons_ne_nil _ _) (.inr hhead)
        have hpos : 0 < Nat.ofDigitChars 10 (e :: es) 0 := by
          by_contra hnot
          rw [Nat.eq_zero_of_not_pos hnot, Nat.toDigits_zero] at ih
          exact hhead (ih ▸ rfl)
        rw [← Nat.toDigits_append_toDigits (by decide) hpos hd, ih, Nat.toDigits_of_lt_base hd]

/-! ## Numbers -/

/-- The text does not go on with a number that ends before it. -/
def Ends (rest : List Char) : Prop := ∀ c ∈ rest.head?, c.isDigit = false ∧ c ≠ '.' ∧ c ≠ 'e' ∧ c ≠ 'E'

/-- Behind space stand the digits of the number, which is below the limit, and nothing goes on with it. -/
def NaturalText (limit : Nat) (text : List Char) (n : Nat) (rest : List Char) : Prop :=
  skipSpace text = Nat.toDigits 10 n ++ rest ∧ Ends rest ∧ n < limit

theorem gives_someDigits : Gives someDigits text ds rest ↔
    text = ds ++ rest ∧ ds ≠ [] ∧ (∀ c ∈ ds, c.isDigit) ∧ ∀ c ∈ rest.head?, c.isDigit = false := by
  have hspan (hdigits : ∀ c ∈ ds, c.isDigit) (hstop : ∀ c ∈ rest.head?, c.isDigit = false) :
      (ds ++ rest).takeWhile Char.isDigit = ds ∧ (ds ++ rest).dropWhile Char.isDigit = rest := by
    rw [List.takeWhile_append_of_pos hdigits, List.dropWhile_append_of_pos hdigits]
    cases rest <;> simp_all
  unfold Gives someDigits
  split
  · next hnone =>
      simp only [not_yields_error, false_iff]
      rintro ⟨rfl, hne, hdigits, hstop⟩
      exact hne ((hspan hdigits hstop).1.symm.trans hnone)
  · next d more hsome =>
      simp only [yields_ok, ← hsome]
      constructor
      · rintro ⟨rfl, rfl⟩
        refine ⟨List.takeWhile_append_dropWhile.symm, by simp [hsome], List.all_eq_true.mp List.all_takeWhile,
          fun c hc => ?_⟩
        simpa [Option.mem_def.mp hc] using List.head?_dropWhile_not Char.isDigit text
      · rintro ⟨rfl, -, hdigits, hstop⟩
        exact hspan hdigits hstop

theorem gather_eq (hn : n ≤ Word.limit) : gather n ds = (m, []) ↔ Nat.ofDigitChars 10 ds n = m ∧ m ≤ Word.limit := by
  induction ds generalizing n with
  | nil =>
      simp only [gather, Prod.mk.injEq, and_true, Nat.ofDigitChars_nil]
      exact ⟨fun h => ⟨h, h ▸ hn⟩, And.left⟩
  | cons d ds ih =>
      rw [gather, Nat.ofDigitChars_cons]
      split
      · next hnext => exact ih hnext
      · next hnext =>
          have hle := le_ofDigitChars ds (10 * n + (d.toNat - '0'.toNat))
          simp only [Prod.mk.injEq, reduceCtorEq, and_false, false_iff]
          rintro ⟨rfl, h⟩
          omega

theorem toDouble_ne_natural {negative : Bool} {exponent : Int} : toDouble negative m exponent ≠ .ok (.natural n) := by
  rw [toDouble]
  generalize (if 0 ≤ exponent then _ else _) = scaled
  cases scaled <;> simp

theorem numeral_value {numeral : Numeral} : numeral.value = .ok (.natural n) ↔ numeral.negative = false ∧
    numeral.fraction = none ∧ numeral.exponent = none ∧ gather 0 numeral.whole = (n, []) := by
  obtain ⟨negative, whole, fraction, exponent⟩ := numeral
  rw [Numeral.value]
  rcases gather 0 whole with ⟨significand, dropped⟩
  simp only
  split
  · simp only [toNumber]
    split
    · next hdropped => simp_all [toDouble_ne_natural]
    · next hdropped =>
        split
        · simp_all
        · split <;> simp_all [toDouble_ne_natural]
  · next hnone =>
      simp only [toDouble_ne_natural, false_iff]
      rintro ⟨-, rfl, rfl, -⟩
      exact hnone rfl rfl

section
variable {numeral other : Numeral} {h : rest.length < text.length}

theorem keeps_readExponent (hread : Yields (numeral.readExponent rest h) other later) :
    other = { numeral with exponent := other.exponent } := by
  unfold Numeral.readExponent at hread
  split at hread
  · obtain ⟨rfl, -⟩ := yields_ok.mp hread
    rfl
  · split at hread
    · obtain ⟨_, hmap⟩ := hread
      obtain ⟨c, -, hc⟩ := map_eq_ok.mp hmap
      cases hc
      rfl
    · obtain ⟨rfl, -⟩ := yields_ok.mp hread
      rfl

theorem keeps_readFraction (hread : Yields (numeral.readFraction rest h) other later) :
    other = { numeral with fraction := other.fraction, exponent := other.exponent } := by
  unfold Numeral.readFraction at hread
  split at hread
  · split at hread
    · simp at hread
    · rw [keeps_readExponent hread]
  · rw [keeps_readExponent hread]

/-- There is no exponent to be read. -/
theorem yields_readExponent (hnone : numeral.exponent = none) : Yields (numeral.readExponent rest h) numeral later ↔
    later = rest ∧ ∀ c ∈ rest.head?, c ≠ 'e' ∧ c ≠ 'E' := by
  unfold Numeral.readExponent
  split
  · simp [eq_comm]
  · next c more _ =>
      split
      · next he =>
          constructor
          · rintro ⟨_, hmap⟩
            obtain ⟨digits, -, hdigits⟩ := map_eq_ok.mp hmap
            have hexponent := congrArg (fun c => c.value.exponent) hdigits
            simp [hnone] at hexponent
          · rintro ⟨-, hstop⟩
            have := hstop c rfl
            simp_all
      · next he =>
          simp only [yields_ok, true_and, List.head?_cons, Option.mem_def, Option.some.injEq, forall_eq']
          exact ⟨fun heq => ⟨heq.symm, by simpa using he⟩, fun hstop => hstop.1.symm⟩

/-- There is neither a fraction nor an exponent to be read. -/
theorem yields_readFraction (hfraction : numeral.fraction = none) (hexponent : numeral.exponent = none) :
    Yields (numeral.readFraction rest h) numeral later ↔
      later = rest ∧ ∀ c ∈ rest.head?, c ≠ '.' ∧ c ≠ 'e' ∧ c ≠ 'E' := by
  unfold Numeral.readFraction
  split
  · next more _ =>
      constructor
      · intro hread
        split at hread
        · simp at hread
        · have hkept := congrArg Numeral.fraction (keeps_readExponent hread)
          simp [hfraction] at hkept
      · rintro ⟨-, hstop⟩
        exact absurd rfl (hstop '.' rfl).1
  · next hpoint =>
      rw [yields_readExponent hexponent]
      refine and_congr_right fun _ => forall₂_congr fun c hc => ⟨fun he => ⟨?_, he⟩, And.right⟩
      rintro rfl
      cases rest with
      | nil => cases hc
      | cons _ more =>
          cases hc
          exact hpoint more h rfl HEq.rfl

end

theorem dropMinus_digits (hne : ds ≠ []) (hdigits : ∀ c ∈ ds, c.isDigit) :
    dropMinus (ds ++ rest) = (false, ds ++ rest) := by
  obtain ⟨d, ds, rfl⟩ := List.exists_cons_of_ne_nil hne
  have hd := hdigits d List.mem_cons_self
  unfold dropMinus
  split
  · next hminus =>
      cases hminus
      cases hd
  · rfl

theorem dropMinus_of_false (h : (dropMinus text).1 = false) : (dropMinus text).2 = text := by
  unfold dropMinus at h ⊢
  split at h
  · cases h
  · rfl

theorem gives_readNumeral_iff {numeral : Numeral} : Gives readNumeral text numeral rest ↔
    ∃ ds later, ∃ h : later.length < text.length, Gives someDigits (dropMinus text).2 ds later ∧
      ¬ (ds.length ≠ 1 && ds.head? == some '0') ∧
      Yields (Numeral.readFraction ⟨(dropMinus text).1, ds, none, none⟩ later h) numeral rest := by
  unfold Gives readNumeral
  constructor
  · intro hread
    split at hread
    · simp at hread
    rename_i digits hgiven
    split at hread
    · simp at hread
    rename_i hzero
    exact ⟨_, _, _, yields_of_eq_ok hgiven, hzero, hread⟩
  · rintro ⟨ds, later, h, ⟨_, hgiven⟩, hzero, hread⟩
    simp only [hgiven]
    rwa [if_neg hzero]

/-- The parts of a number that has only digits. -/
theorem gives_readNumeral : Gives readNumeral text ⟨false, ds, none, none⟩ rest ↔
    text = ds ++ rest ∧ ds ≠ [] ∧ (∀ c ∈ ds, c.isDigit) ∧ (ds.length = 1 ∨ ds.head? ≠ some '0') ∧ Ends rest := by
  rw [gives_readNumeral_iff]
  constructor
  · rintro ⟨ds', later, h, hgiven, hzero, hread⟩
    have hkept := keeps_readFraction hread
    have hnegative : (dropMinus text).1 = false := congrArg Numeral.negative hkept.symm
    obtain rfl : ds' = ds := congrArg Numeral.whole hkept.symm
    simp only [hnegative] at hread
    obtain ⟨rfl, hends⟩ := (yields_readFraction rfl rfl).mp hread
    rw [dropMinus_of_false hnegative] at hgiven
    obtain ⟨htext, hne, hdigits, hstop⟩ := gives_someDigits.mp hgiven
    exact ⟨htext, hne, hdigits, by simpa [Classical.or_iff_not_imp_left] using hzero, fun c hc => ⟨hstop c hc, hends c hc⟩⟩
  · rintro ⟨rfl, hne, hdigits, hzero, hends⟩
    have hread : Gives someDigits (ds ++ rest) ds rest :=
      gives_someDigits.mpr ⟨rfl, hne, hdigits, fun c hc => (hends c hc).1⟩
    refine ⟨ds, rest, hread.shorter, ?_⟩
    simp only [dropMinus_digits hne hdigits]
    exact ⟨hread, by simpa [Classical.or_iff_not_imp_left] using hzero,
      (yields_readFraction rfl rfl).mpr ⟨rfl, fun c hc => (hends c hc).2⟩⟩

theorem head_toDigits (hn : 0 < n) : (Nat.toDigits 10 n).head? ≠ some '0' := by
  induction n using Nat.strongRecOn with
  | _ n ih =>
      rw [Nat.toDigits_eq_if (by decide)]
      split
      · simpa using Nat.ne_of_gt hn
      · have hhead := ih (n / 10) (by omega) (by omega)
        cases hdigits : Nat.toDigits 10 (n / 10) with
        | nil => exact absurd hdigits Nat.toDigits_ne_nil
        | cons d ds => simpa [hdigits] using hhead

theorem gives_readNumber {number : Number} : Gives readNumber text number rest ↔
    ∃ numeral, Gives readNumeral text numeral rest ∧ numeral.value = .ok number := by
  constructor
  · rintro ⟨_, hread⟩
    obtain ⟨numeral, hnumeral, hread⟩ := bind_eq_ok.mp hread
    obtain ⟨value, hvalue, hread⟩ := bind_eq_ok.mp hread
    cases hread
    exact ⟨numeral.value, yields_of_eq_ok hnumeral, hvalue⟩
  · rintro ⟨numeral, ⟨h, hread⟩, hvalue⟩
    exact ⟨h, bind_eq_ok.mpr ⟨_, hread, bind_eq_ok.mpr ⟨_, hvalue, rfl⟩⟩⟩

theorem gives_readNumber_natural : Gives readNumber text (.natural n) rest ↔
    text = Nat.toDigits 10 n ++ rest ∧ Ends rest ∧ n ≤ Word.limit := by
  rw [gives_readNumber]
  constructor
  · rintro ⟨⟨negative, ds, fraction, exponent⟩, hread, hvalue⟩
    obtain ⟨rfl, rfl, rfl, hgather⟩ := numeral_value.mp hvalue
    obtain ⟨rfl, hne, hdigits, hzero, hends⟩ := gives_readNumeral.mp hread
    obtain ⟨rfl, hlimit⟩ := (gather_eq (Nat.zero_le _)).mp hgather
    rw [toDigits_ofDigitChars hdigits hne hzero]
    exact ⟨rfl, hends, hlimit⟩
  · rintro ⟨rfl, hends, hlimit⟩
    refine ⟨⟨false, Nat.toDigits 10 n, none, none⟩, gives_readNumeral.mpr ⟨rfl, Nat.toDigits_ne_nil, ?_, ?_, hends⟩,
      numeral_value.mpr ⟨rfl, rfl, rfl, (gather_eq (Nat.zero_le _)).mpr ⟨Nat.ofDigitChars_ten_toDigits, hlimit⟩⟩⟩
    · exact fun c hc => Nat.isDigit_of_mem_toDigits (by decide) (by decide) hc
    · rcases Nat.eq_zero_or_pos n with rfl | hn
      · exact .inl rfl
      · exact .inr (head_toDigits hn)

theorem startsNumber_of_gives {number : Number} {c : Char} {more : List Char}
    (h : Gives readNumber (c :: more) number rest) : startsNumber c := by
  obtain ⟨numeral, hnumeral, -⟩ := gives_readNumber.mp h
  obtain ⟨ds, later, _, hgiven, -⟩ := gives_readNumeral_iff.mp hnumeral
  obtain ⟨htext, hne, hdigits, -⟩ := gives_someDigits.mp hgiven
  obtain ⟨d, ds, rfl⟩ := List.exists_cons_of_ne_nil hne
  by_cases hminus : c = '-'
  · rw [hminus]
    rfl
  · have hdrop : dropMinus (c :: more) = (false, c :: more) := by
      unfold dropMinus
      split
      · next heq =>
          cases heq
          exact absurd rfl hminus
      · rfl
    rw [hdrop] at htext
    cases htext
    simp [startsNumber, hdigits c List.mem_cons_self]

theorem gives_readNumberAs {select : Number → Option α} : Gives (readNumberAs select) text x rest ↔
    ∃ number, Gives readNumber (skipSpace text) number rest ∧ select number = some x := by
  rw [readNumberAs, gives_spaced]
  constructor
  · rintro ⟨c, more, hfound, hread⟩
    rw [hfound]
    split at hread
    · split at hread
      · simp at hread
      rename_i number hnumber
      split at hread
      · next y hselect =>
          obtain ⟨rfl, rfl⟩ := yields_ok.mp hread
          exact ⟨number.value, yields_of_eq_ok hnumber, hselect⟩
      · simp at hread
    · simp at hread
  · rintro ⟨number, hread, hselect⟩
    cases hfound : skipSpace text with
    | nil =>
        rw [hfound] at hread
        exact absurd hread not_yields_nil
    | cons c more =>
        rw [hfound] at hread
        refine ⟨c, more, rfl, ?_⟩
        rw [if_pos (startsNumber_of_gives hread)]
        obtain ⟨_, hnumber⟩ := hread
        rw [hnumber]
        simp [hselect]

/-- A whole number is read where its digits stand. -/
theorem gives_readNatural (hlimit : limit ≤ Word.limit + 1) :
    Gives (readNatural limit) text n rest ↔ NaturalText limit text n rest := by
  rw [readNatural, gives_readNumberAs]
  constructor
  · rintro ⟨number, hread, hselect⟩
    split at hselect
    · split at hselect
      · next hn =>
          cases hselect
          obtain ⟨htext, hends, -⟩ := gives_readNumber_natural.mp hread
          exact ⟨htext, hends, hn⟩
      · cases hselect
    · cases hselect
  · rintro ⟨hfound, hends, hn⟩
    exact ⟨.natural n, gives_readNumber_natural.mpr ⟨hfound, hends, by omega⟩, if_pos hn⟩

/-! ## Words -/

theorem gives_readWord {value : α} {w : Char} {word : List Char} :
    Gives (readWord value (w :: word)) text x rest ↔ text = w :: word ++ rest ∧ value = x := by
  induction word generalizing w text with
  | nil =>
      cases text with
      | nil => simp
      | cons c more =>
          unfold Gives
          rw [readWord]
          split <;> simp_all [Consumed.one, and_comm]
  | cons v word ih =>
      cases text with
      | nil => simp
      | cons c more =>
          unfold Gives
          rw [readWord]
          split
          · next hc => simp [hc, ih]
          · next hc => simp [hc]
          · simp

/-- Behind space stands the word for the truth value. -/
def BoolText (text : List Char) (b : Bool) (rest : List Char) : Prop :=
  skipSpace text = (if b then "true" else "false").toList ++ rest

theorem gives_readBool {b : Bool} : Gives readBool text b rest ↔ BoolText text b rest := by
  rw [readBool, gives_spaced, BoolText]
  constructor
  · rintro ⟨c, more, hfound, hread⟩
    split at hread
    · next hc =>
        rw [Reader.behind, yields_behind] at hread
        obtain ⟨rfl, rfl⟩ := gives_readWord.mp hread
        rw [hfound, hc]
        rfl
    split at hread
    · next hc =>
        rw [Reader.behind, yields_behind] at hread
        obtain ⟨rfl, rfl⟩ := gives_readWord.mp hread
        rw [hfound, hc]
        rfl
    · simp at hread
  · intro hfound
    cases b with
    | true =>
        refine ⟨'t', "rue".toList ++ rest, hfound, ?_⟩
        rw [if_pos rfl, Reader.behind, yields_behind]
        exact gives_readWord.mpr ⟨rfl, rfl⟩
    | false =>
        refine ⟨'f', "alse".toList ++ rest, hfound, ?_⟩
        rw [if_neg (by decide), if_pos rfl, Reader.behind, yields_behind]
        exact gives_readWord.mpr ⟨rfl, rfl⟩

end FrameLog.Json
