import FrameLog.Command.Failure
import FrameLog.Json.Reader
import FrameLog.Json.Writer

/-! The payloads that an input text holds: the items of an array, or one value a line. -/
namespace FrameLog

namespace Text

/-- The characters with the Unicode property White_Space. -/
def isBlank (c : Char) : Bool :=
  let n := c.toNat
  (0x09 ≤ n && n ≤ 0x0D) || n == 0x20 || n == 0x85 || n == 0xA0 || n == 0x1680 || (0x2000 ≤ n && n ≤ 0x200A) ||
    n == 0x2028 || n == 0x2029 || n == 0x202F || n == 0x205F || n == 0x3000

def dropReturn : List Char → List Char
  | '\r' :: line => line
  | line => line

/-- The lines of the text behind `line`, which is written backwards. -/
def linesAfter (line : List Char) : List Char → List (List Char)
  | [] => if line.isEmpty then [] else [line.reverse]
  | c :: rest =>
    if c = '\n' then (dropReturn line).reverse :: linesAfter [] rest else linesAfter (c :: line) rest

/-- The pieces that line feeds end, without a carriage return before one; then what is left, if anything is. -/
def lines (text : List Char) : List (List Char) := linesAfter [] text

end Text

namespace Command

inductive Format
  | json
  | jsonLines
deriving DecidableEq, Repr

/-- The values on lines that are not blank, the first of which has the given number. -/
def parseLines (number : Nat) : List (List Char) → Except Stop (List Json.Value)
  | [] => .ok []
  | line :: rest =>
    if line.all Text.isBlank then parseLines (number + 1) rest
    else
      match Json.readAll (Json.readValue Json.maxLevels) line with
      | .error problem => .error (.failed (.parseLine number) (.json problem))
      | .ok value => (parseLines (number + 1) rest).map (value :: ·)

def parsePayloads (text : List Char) : Format → Except Stop (List Json.Value)
  | .json =>
    match Json.readAll Json.readArray text with
    | .error problem => .error (.failed .parseArray (.json problem))
    | .ok values => .ok values
  | .jsonLines => parseLines 1 (Text.lines text)

def payload (value : Json.Value) : Bytes := Utf8.encode (Json.write value)

end Command
end FrameLog
