/-! Values described for reading: words, and named records of fields. -/
namespace FrameLog

inductive Described
  | word (text : String)
  | record (name : String) (fields : List (String × Described))

namespace Described

mutual
/-- All on one line: `Name \x7b field: value, other: value \x7d`. -/
def inline : Described → String
  | .word text => text
  | .record name fields => name ++ " \x7b " ++ ", ".intercalate (inlineFields fields) ++ " \x7d"

def inlineFields : List (String × Described) → List String
  | [] => []
  | (field, value) :: rest => (field ++ ": " ++ value.inline) :: inlineFields rest
end

mutual
/-- One field a line, each ending in a comma and four columns further in than what holds it. -/
def indented (margin : String) : Described → String
  | .word text => text
  | .record name fields => name ++ " \x7b\n" ++ indentedFields (margin ++ "    ") fields ++ margin ++ "\x7d"

def indentedFields (margin : String) : List (String × Described) → String
  | [] => ""
  | (field, value) :: rest =>
    margin ++ field ++ ": " ++ value.indented margin ++ ",\n" ++ indentedFields margin rest
end

def lines (d : Described) : String := d.indented ""

def ofNat (n : Nat) : Described := .word n.repr

def ofBool (b : Bool) : Described := .word (if b then "true" else "false")

end Described
end FrameLog
