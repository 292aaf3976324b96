import FrameLog.Decimal.Shortest

/-! Numbers as text: how a decimal's digits, point and exponent are laid out. -/
namespace FrameLog.Decimal

/-- `plain k` says whether a number whose leading digit stands for `10 ^ k` is written without an exponent. -/
structure Layout where
  tie : Tie
  plain : Int → Bool
  wholePoint : Bool
  exponentPlus : Bool
  nan : String
  infinity : String

def digitChars (n : Nat) : List Char := Nat.toDigits 10 n

def wholeTail (l : Layout) : List Char := if l.wholePoint then ['.', '0'] else []

/-- Digits, with the point or the zeros that their exponent asks for. -/
def writePlain (l : Layout) (d : Decimal) : List Char :=
  let ds := digitChars d.digits
  let point := ds.length + d.exponent
  if 0 ≤ d.exponent then ds ++ List.replicate d.exponent.toNat '0' ++ wholeTail l
  else if 0 < point then ds.take point.toNat ++ '.' :: ds.drop point.toNat
  else '0' :: '.' :: List.replicate (-point).toNat '0' ++ ds

def writeScientific (l : Layout) (d : Decimal) : List Char :=
  let ds := digitChars d.digits
  let k := ds.length - 1 + d.exponent
  let fraction := if ds.length ≤ 1 then [] else '.' :: ds.drop 1
  let sign := if k < 0 then ['-'] else if l.exponentPlus then ['+'] else []
  ds.take 1 ++ fraction ++ 'e' :: sign ++ digitChars k.natAbs

def write (l : Layout) (d : Decimal) : List Char :=
  if l.plain ((digitChars d.digits).length - 1 + d.exponent) then writePlain l d else writeScientific l d

def text (f : Binary.Format) (l : Layout) : Binary → List Char
  | .nan => l.nan.toList
  | .infinity s => sign s ++ l.infinity.toList
  | .finite s m e =>
    if m = 0 then sign s ++ '0' :: wholeTail l else sign s ++ write l (shortest f l.tie m e)
where
  sign (s : Bool) : List Char := if s then ['-'] else []

/-- The exact value of a finite number rounded to one decimal place, a half to the even neighbour. -/
def tenths : Binary → List Char
  | .finite s m e =>
    let n := if 0 ≤ e then (10 * m) <<< e.toNat else Binary.shiftRound (10 * m) (-e).toNat
    (if s then ['-'] else []) ++ digitChars (n / 10) ++ '.' :: digitChars (n % 10)
  | .infinity s => (if s then ['-'] else []) ++ "inf".toList
  | .nan => "NaN".toList

end FrameLog.Decimal
