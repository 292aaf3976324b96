import FrameLog.Binary.Basic

/-! JSON values. -/
namespace FrameLog.Json

/-- Whole numbers are kept exactly, others as binary numbers of one of two precisions. -/
inductive Number
  | natural (n : Nat)
  /-- The number below zero with the magnitude `n`. -/
  | negative (n : Nat)
  | single (x : Binary)
  | double (x : Binary)
deriving DecidableEq, Repr

inductive Value
  | null
  | bool (b : Bool)
  | number (n : Number)
  | string (s : String)
  | array (items : List Value)
  | object (fields : List (String × Value))

/-- Puts a field in the order of the keys, in place of one with the same key. -/
def insertField (key : String) (value : Value) : List (String × Value) → List (String × Value)
  | [] => [(key, value)]
  | (k, v) :: rest =>
    if key < k then (key, value) :: (k, v) :: rest
    else if key = k then (key, value) :: rest
    else (k, v) :: insertField key value rest

inductive Problem
  /-- No text that begins so is a JSON text, or one that is read. -/
  | malformed
  /-- Another type, range or set of fields is asked for. -/
  | mismatched
  | truncated
deriving DecidableEq, Repr

end FrameLog.Json
