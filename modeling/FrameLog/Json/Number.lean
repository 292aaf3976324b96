import FrameLog.Decimal.Read
import FrameLog.Word
import FrameLog.Json.Consumed

/-!
JSON numbers. A whole number that fits 64 bits is kept; any other becomes the double of its leading digits (as
many as fit 64 bits), times or through a power of ten, rounded after each of these steps.
-/
namespace FrameLog.Json

open Decimal (spanDigits spanSign ofDigits)

/-- Takes digits as long as the number they make fits a word; answers with the digits not taken, too. -/
def gather : Nat → List Char → Nat × List Char
  | n, [] => (n, [])
  | n, c :: rest =>
    let next := 10 * n + (c.toNat - '0'.toNat)
    if next ≤ Word.limit then gather next rest else (n, c :: rest)

def powerOfTen (n : Nat) : Binary := .ofDecimal .double false 1 n

/-- `x * 10 ^ n`, if it is within the range. -/
def scaleUp (x : Binary) (n : Nat) : Option Binary :=
  if x.isZero then some x
  else if 308 < n then none
  else
    let y := Binary.mul .double x (powerOfTen n)
    if y.isInfinite then none else some y

/-- `x / 10 ^ n`, in steps of at most `10 ^ 308`. -/
def scaleDown (x : Binary) (n : Nat) : Binary :=
  if n ≤ 308 then Binary.div .double x (powerOfTen n)
  else if x.isZero then x
  else scaleDown (Binary.div .double x (powerOfTen 308)) (n - 308)
termination_by n

def toDouble (negative : Bool) (significand : Nat) (exponent : Int) : Except Problem Number :=
  let x := Binary.ofNat .double significand
  let scaled := if 0 ≤ exponent then scaleUp x exponent.toNat else some (scaleDown x (-exponent).toNat)
  match scaled with
  | none => .error .malformed
  | some y => .ok (.double (if negative then y.neg else y))

/-- A number without point and exponent of which `dropped` digits did not fit. -/
def toNumber (negative : Bool) (significand dropped : Nat) : Except Problem Number :=
  if dropped ≠ 0 then toDouble negative significand dropped
  else if !negative then .ok (.natural significand)
  else if significand = 0 || 0x8000000000000000 < significand then toDouble negative significand 0
  else .ok (.negative significand)

/-- Digits, of which there has to be one; at the end of the text they are missing rather than wrong. -/
def someDigits : Reader (List Char) := fun input =>
  match h : input.takeWhile Char.isDigit with
  | [] => .error (if input.isEmpty then .truncated else .malformed)
  | d :: ds => .ok ⟨d :: ds, input.dropWhile Char.isDigit, by
      have := congrArg List.length (List.takeWhile_append_dropWhile (p := Char.isDigit) (l := input))
      rw [h] at this
      simp only [List.cons_append, List.length_cons, List.length_append] at this
      omega⟩

/-- The parts of a number as they are written; an exponent has its sign, `true` for a minus. -/
structure Numeral where
  negative : Bool
  whole : List Char
  fraction : Option (List Char) := none
  exponent : Option (Bool × List Char) := none

theorem length_spanSign_le (s : List Char) : (spanSign s).2.length ≤ s.length := by
  unfold spanSign
  split <;> simp

variable {input : List Char}

/-- Reads the exponent of a number, if it has one, from what follows the other parts. -/
def Numeral.readExponent (n : Numeral) (rest : List Char) (h : rest.length < input.length) :
    Except Problem (Consumed Numeral input) :=
  match rest with
  | [] => .ok ⟨n, [], h⟩
  | c :: more =>
    if c = 'e' || c = 'E' then
      (someDigits (spanSign more).2).map fun ds =>
        ⟨{ n with exponent := some ((spanSign more).1, ds.value) }, ds.rest, by
          have := ds.shorter
          have := length_spanSign_le more
          simp only [List.length_cons] at h
          omega⟩
    else .ok ⟨n, c :: more, h⟩

/-- Reads the fraction of a number, if it has one, and its exponent. -/
def Numeral.readFraction (n : Numeral) (rest : List Char) (h : rest.length < input.length) :
    Except Problem (Consumed Numeral input) :=
  match rest with
  | '.' :: more =>
    match someDigits more with
    | .error e => .error e
    | .ok ds => { n with fraction := some ds.value }.readExponent ds.rest (by
        have := ds.shorter
        simp only [List.length_cons] at h
        omega)
  | rest => n.readExponent rest h

def dropMinus : List Char → Bool × List Char
  | '-' :: rest => (true, rest)
  | s => (false, s)

theorem length_dropMinus_le (s : List Char) : (dropMinus s).2.length ≤ s.length := by
  unfold dropMinus
  split <;> simp

/-- Reads the parts of a number; no digit follows a leading zero. -/
def readNumeral : Reader Numeral := fun input =>
  match someDigits (dropMinus input).2 with
  | .error e => .error e
  | .ok ds =>
    if ds.value.length ≠ 1 && ds.value.head? == some '0' then .error .malformed
    else
      Numeral.readFraction ⟨(dropMinus input).1, ds.value, none, none⟩ ds.rest
        (Nat.lt_of_lt_of_le ds.shorter (length_dropMinus_le input))

def Numeral.value (n : Numeral) : Except Problem Number :=
  let (significand, dropped) := gather 0 n.whole
  match n.fraction, n.exponent with
  | none, none => toNumber n.negative significand dropped.length
  | fraction, exponent =>
    let digits := fraction.getD []
    let (significand, unused) := gather significand digits
    let power : Int :=
      match exponent with
      | none => 0
      | some (down, ds) => if down then -(ofDigits ds : Int) else ofDigits ds
    toDouble n.negative significand (power + dropped.length - (digits.length - unused.length : Nat))

def readNumber : Reader Number := fun input => do
  let n ← readNumeral input
  let value ← n.value.value
  return ⟨value, n.rest, n.shorter⟩

/-- Passes over a number, whatever its size. One that ends too early is malformed. -/
def skipNumber : Reader Unit := fun input =>
  match readNumeral input with
  | .error _ => .error .malformed
  | .ok n => .ok (n.map fun _ => ())

end FrameLog.Json
