/-! Binary floating-point numbers as exact values, and rounding to a format, a tie to the even neighbour. -/
namespace FrameLog

/-- A floating-point number: `finite s m e` is `m * 2 ^ e`, negated if `s`. -/
inductive Binary
  | nan
  | infinity (negative : Bool)
  | finite (negative : Bool) (significand : Nat) (exponent : Int)
deriving DecidableEq, Repr, Inhabited

namespace Binary

/-- A format holds the significands below `2 ^ precision`, at exponents from `low` to `high`. -/
structure Format where
  precision : Nat
  low : Int
  high : Int
deriving DecidableEq, Repr

def Format.single : Format := ⟨24, -149, 104⟩

def Format.double : Format := ⟨53, -1074, 971⟩

def zero (f : Format) : Binary := .finite false 0 f.low

def one : Binary := .finite false 1 0

/-- `n / 2 ^ shift`, rounded: `h` is the quotient in halves, exact if shifting it back gives `n`. -/
def shiftRound (n shift : Nat) : Nat :=
  if shift = 0 then n
  else
    let h := n >>> (shift - 1)
    let q := h >>> 1
    if h % 2 = 0 then q
    else if q % 2 = 1 then q + 1
    else if h <<< (shift - 1) = n then q
    else q + 1

def divRound (a b : Nat) : Nat :=
  let q := a / b
  let r := 2 * (a % b)
  if r < b then q
  else if b < r then q + 1
  else q + q % 2

/-- Takes a significand that rounding has pushed to `2 ^ precision` down again; what is past the range is infinite. -/
def settle (f : Format) (negative : Bool) (m : Nat) (e : Int) : Binary :=
  if m = 0 then .finite negative 0 f.low
  else if m >>> f.precision = 0 then within m e
  else within (m >>> 1) (e + 1)
where
  within (m : Nat) (e : Int) : Binary := if f.high < e then .infinity negative else .finite negative m e

/-- The exponent at which a number of magnitude `2 ^ (magnitude - 1)` and less than twice that is held. -/
def Format.exponentFor (f : Format) (magnitude : Int) : Int :=
  max (magnitude - f.precision) f.low

def roundScaled (f : Format) (negative : Bool) (m : Nat) (e : Int) : Binary :=
  if m = 0 then .finite negative 0 f.low
  else
    let target := f.exponentFor (e + m.log2 + 1)
    if target ≤ e then settle f negative (m <<< (e - target).toNat) target
    else settle f negative (shiftRound m (target - e).toNat) target

def roundQuotient (f : Format) (negative : Bool) (a b : Nat) : Binary :=
  if a = 0 then .finite negative 0 f.low
  else
    let estimate : Int := a.log2 - b.log2
    let below := if 0 ≤ estimate then a < b <<< estimate.toNat else a <<< (-estimate).toNat < b
    let target := f.exponentFor (if below then estimate else estimate + 1)
    if 0 ≤ target then settle f negative (divRound a (b <<< target.toNat)) target
    else settle f negative (divRound (a <<< (-target).toNat) b) target

def ofNat (f : Format) (n : Nat) : Binary := roundScaled f false n 0

def ofInt (f : Format) (n : Int) : Binary := roundScaled f (n < 0) n.natAbs 0

def convert (f : Format) : Binary → Binary
  | .finite s m e => roundScaled f s m e
  | x => x

def ofDecimal (f : Format) (negative : Bool) (digits : Nat) (exponent : Int) : Binary :=
  let magnitude : Int := (Nat.toDigits 10 digits).length + exponent
  if digits = 0 then .finite negative 0 f.low
  else if magnitude < -400 then .finite negative 0 f.low
  else if 400 < magnitude then .infinity negative
  else if 0 ≤ exponent then roundScaled f negative (digits * Nat.pow 10 exponent.toNat) 0
  else roundQuotient f negative digits (Nat.pow 10 (-exponent).toNat)

def neg : Binary → Binary
  | .nan => .nan
  | .infinity s => .infinity !s
  | .finite s m e => .finite (!s) m e

def isNegative : Binary → Bool
  | .nan => false
  | .infinity s | .finite s _ _ => s

def isFinite : Binary → Bool
  | .finite .. => true
  | _ => false

def isInfinite : Binary → Bool
  | .infinity _ => true
  | _ => false

def isZero : Binary → Bool
  | .finite _ 0 _ => true
  | _ => false

def mul (f : Format) : Binary → Binary → Binary
  | .finite s m e, .finite t n d => roundScaled f (s != t) (m * n) (e + d)
  | .nan, _ | _, .nan => .nan
  | x, y => if x.isZero || y.isZero then .nan else .infinity (x.isNegative != y.isNegative)

def div (f : Format) : Binary → Binary → Binary
  | .finite s m e, .finite t n d =>
    if n = 0 then if m = 0 then .nan else .infinity (s != t)
    else if 0 ≤ e - d then roundQuotient f (s != t) (m <<< (e - d).toNat) n
    else roundQuotient f (s != t) m (n <<< (d - e).toNat)
  | .nan, _ | _, .nan => .nan
  | .infinity _, .infinity _ => .nan
  | .infinity s, .finite t _ _ => .infinity (s != t)
  | .finite s _ _, .infinity t => .finite (s != t) 0 f.low

def magnitudeLt (m : Nat) (e : Int) (n : Nat) (d : Int) : Bool :=
  if e ≤ d then m < n <<< (d - e).toNat else m <<< (e - d).toNat < n

/-- The order of the values; nothing is below or above a `nan`, and both zeros are equal. -/
def lt : Binary → Binary → Bool
  | .nan, _ | _, .nan => false
  | .infinity s, .infinity t => s && !t
  | .infinity s, .finite .. => s
  | .finite .., .infinity t => !t
  | .finite false m e, .finite false n d => magnitudeLt m e n d
  | .finite true m e, .finite true n d => magnitudeLt n d m e
  | .finite true m _, .finite false n _ => m != 0 || n != 0
  | .finite false _ _, .finite true _ _ => false

/-- The smallest natural number not below a finite number; a negative one counts as zero. -/
def ceilNat (negative : Bool) (m : Nat) (e : Int) : Nat :=
  if negative then 0
  else if 0 ≤ e then m <<< e.toNat
  else
    let q := m >>> (-e).toNat
    if q <<< (-e).toNat = m then q else q + 1

/-- Fields of the interchange encoding: sign, biased exponent, fraction, the width of the fraction first. -/
def bits (f : Format) : Binary → Nat
  | .nan => encode false (top + 1) (1 <<< (width - 1))
  | .infinity s => encode s (top + 1) 0
  | .finite s m e =>
    if m >>> width = 0 then encode s 0 m else encode s (e - f.low + 1).toNat (m - (1 <<< width))
where
  width := f.precision - 1
  top := (f.high - f.low + 1).toNat
  encode (s : Bool) (exponent fraction : Nat) : Nat :=
    (((if s then top + 2 else 0) + exponent) <<< width) + fraction

end Binary
end FrameLog
