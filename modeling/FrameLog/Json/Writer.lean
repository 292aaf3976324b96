import FrameLog.Decimal.Layout
import FrameLog.Json.Quoted

/-! Writing JSON values, on one line or indented by two columns a level. -/
namespace FrameLog.Json

/-- Doubles are written plainly from `10 ^ -5` up to `10 ^ 16`. -/
def doubleLayout : Decimal.Layout := ⟨.even, fun k => -5 ≤ k && k < 16, true, true, "null", "null"⟩

/-- Singles are written plainly from `10 ^ -6` up to `10 ^ 13`. -/
def singleLayout : Decimal.Layout := ⟨.even, fun k => -6 ≤ k && k < 13, true, true, "null", "null"⟩

/-- A number that is not finite has no JSON text but `null`. -/
def writeBinary (f : Binary.Format) (l : Decimal.Layout) (x : Binary) : List Char :=
  if x.isFinite then Decimal.text f l x else "null".toList

def writeNumber : Number → List Char
  | .natural n => Decimal.digitChars n
  | .negative n => '-' :: Decimal.digitChars n
  | .single x => writeBinary .single singleLayout x
  | .double x => writeBinary .double doubleLayout x

def separate (separator : List Char) : List (List Char) → List Char
  | [] => []
  | [s] => s
  | s :: rest => s ++ separator ++ separate separator rest

mutual
def write : Value → List Char
  | .null => "null".toList
  | .bool b => (if b then "true" else "false").toList
  | .number n => writeNumber n
  | .string s => writeQuoted s
  | .array items => '[' :: separate [','] (writeItems items) ++ [']']
  | .object fields => '\x7b' :: separate [','] (writeFields fields) ++ ['\x7d']

def writeItems : List Value → List (List Char)
  | [] => []
  | item :: rest => write item :: writeItems rest

def writeFields : List (String × Value) → List (List Char)
  | [] => []
  | (key, value) :: rest => (writeQuoted key ++ ':' :: write value) :: writeFields rest
end

/-- Texts between brackets, each on a line of its own behind `inner`, the closing bracket behind `outer`. -/
def writeBlock (opening closing : Char) (outer inner : List Char) (texts : List (List Char)) : List Char :=
  if texts.isEmpty then [opening, closing]
  else opening :: '\n' :: inner ++ separate (',' :: '\n' :: inner) texts ++ '\n' :: outer ++ [closing]

mutual
def writeIndented (margin : List Char) : Value → List Char
  | .array items => writeBlock '[' ']' margin (margin ++ [' ', ' ']) (indentItems (margin ++ [' ', ' ']) items)
  | .object fields =>
    writeBlock '\x7b' '\x7d' margin (margin ++ [' ', ' ']) (indentFields (margin ++ [' ', ' ']) fields)
  | .null => write .null
  | .bool b => write (.bool b)
  | .number n => write (.number n)
  | .string s => write (.string s)

def indentItems (margin : List Char) : List Value → List (List Char)
  | [] => []
  | item :: rest => writeIndented margin item :: indentItems margin rest

def indentFields (margin : List Char) : List (String × Value) → List (List Char)
  | [] => []
  | (key, value) :: rest =>
    (writeQuoted key ++ ':' :: ' ' :: writeIndented margin value) :: indentFields margin rest
end

end FrameLog.Json
