import FrameLog.Binary.Basic

/-! The shortest decimal that reads back as a given binary number, and of those the nearest. -/
namespace FrameLog

structure Decimal where
  digits : Nat
  exponent : Int
deriving DecidableEq, Repr

namespace Decimal

/-- Which of two equally near decimals is taken. -/
inductive Tie
  | up
  | even
deriving DecidableEq, Repr

/-- The numbers that round to a given one, in quarters of its last place, the least such unit being `2 ^ unit`. -/
structure Neighbourhood where
  below : Nat
  value : Nat
  above : Nat
  unit : Int
  closed : Bool

/-- Below the least significand of a precision the numbers lie twice as dense, except at the bottom of the format. -/
def Neighbourhood.of (f : Binary.Format) (m : Nat) (e : Int) : Neighbourhood where
  below := if m = 1 <<< (f.precision - 1) && f.low < e then 4 * m - 1 else 4 * m - 2
  value := 4 * m
  above := 4 * m + 2
  unit := e - 2
  closed := m % 2 = 0

/-- The point of the grid `10 ^ q` nearest to the value among its two neighbours there that read back. -/
def Neighbourhood.point? (n : Neighbourhood) (tie : Tie) (q : Int) : Option Nat :=
  let scale := Nat.pow 10 (-q).toNat <<< n.unit.toNat
  let step := Nat.pow 10 q.toNat <<< (-n.unit).toNat
  let inside (d : Nat) :=
    let x := d * step
    if n.closed then n.below * scale ≤ x && x ≤ n.above * scale else n.below * scale < x && x < n.above * scale
  let d := n.value * scale / step
  let r := 2 * (n.value * scale % step)
  let upper :=
    match tie with
    | .up => decide (step ≤ r)
    | .even => step < r || (step == r && d % 2 == 1)
  if inside d && inside (d + 1) then some (if upper then d + 1 else d)
  else if inside d then some d
  else if inside (d + 1) then some (d + 1)
  else none

def Neighbourhood.search (n : Neighbourhood) (tie : Tie) : Nat → Int → Decimal
  | 0, q => ⟨0, q⟩
  | fuel + 1, q =>
    match n.point? tie q with
    | some d => ⟨d, q⟩
    | none => n.search tie fuel (q - 1)

/-- The shortest decimal for `m * 2 ^ e`; the first grid tried is coarser than the value. -/
def shortest (f : Binary.Format) (tie : Tie) (m : Nat) (e : Int) : Decimal :=
  let start := ((m.log2 : Int) + e) * 30103 / 100000 + 2
  (Neighbourhood.of f m e).search tie 24 start

end Decimal
end FrameLog
