import FrameLog.Binary.Basic

/-! Reading a decimal numeral as the nearest binary number. -/
namespace FrameLog.Decimal

def spanDigits (s : List Char) : List Char × List Char := s.span Char.isDigit

def ofDigits (ds : List Char) : Nat :=
  ds.foldl (fun n c => 10 * n + (c.toNat - '0'.toNat)) 0

/-- An optional sign; `true` for a minus. -/
def spanSign : List Char → Bool × List Char
  | '-' :: s => (true, s)
  | '+' :: s => (false, s)
  | s => (false, s)

/-- The exponent part of a numeral, which runs to its end; `none` if it is not one. -/
def readExponent : List Char → Option Int
  | [] => some 0
  | c :: s =>
    if c = 'e' || c = 'E' then
      let (negative, s) := spanSign s
      let (ds, rest) := spanDigits s
      if ds.isEmpty || !rest.isEmpty then none
      else some (if negative then -(ofDigits ds : Int) else ofDigits ds)
    else none

/-- Digits with an optional point and exponent; at least one digit stands before or after the point. -/
def readUnsigned (f : Binary.Format) (negative : Bool) (s : List Char) : Option Binary :=
  let (whole, s) := spanDigits s
  let (fraction, s) :=
    match s with
    | '.' :: s => spanDigits s
    | s => ([], s)
  if whole.isEmpty && fraction.isEmpty then none
  else (readExponent s).map fun e =>
    Binary.ofDecimal f negative (ofDigits (whole ++ fraction)) (e - fraction.length)

/-- A numeral, or `inf`, `infinity` or `nan` in any case, with an optional sign. -/
def read? (f : Binary.Format) (s : List Char) : Option Binary :=
  let (negative, s) := spanSign s
  let word := s.map Char.toLower
  if word = "inf".toList || word = "infinity".toList then some (.infinity negative)
  else if word = "nan".toList then some .nan
  else readUnsigned f negative s

end FrameLog.Decimal
