import FrameLog.Json.Number
import FrameLog.Json.Quoted

/-!
Reading JSON values: arrays and objects are loops over a reader of what they hold, and a value may be nested
only so many levels deep.
-/
namespace FrameLog.Json

variable {α σ : Type}

/-- Reads with `r` what follows a character that has been seen. -/
def Reader.behind (c : Char) (rest : List Char) (r : Reader α) : Except Problem (Consumed α (c :: rest)) :=
  (r rest).map .behind

/-- Reads with `r` behind space; `r` sees the first character there. -/
def spaced (r : (c : Char) → (rest : List Char) → Except Problem (Consumed α (c :: rest))) : Reader α := fun input =>
  match h : skipSpace input with
  | [] => .error .truncated
  | c :: rest => (r c rest).map (.widen (h ▸ length_skipSpace_le input))

def readMoreItems (item : Reader α) (read : List α) : Reader (List α) := fun input =>
  match h : skipSpace input with
  | [] => .error .truncated
  | ']' :: rest => .ok ⟨read.reverse, rest, length_lt_of_skipSpace h⟩
  | ',' :: rest =>
    match item rest with
    | .error e => .error e
    | .ok c =>
      have hc : c.rest.length < input.length := Nat.lt_trans c.shorter (length_lt_of_skipSpace h)
      match readMoreItems item (c.value :: read) c.rest with
      | .error e => .error e
      | .ok all => .ok (all.widen (Nat.le_of_lt hc))
  | _ => .error .malformed
termination_by input => input.length

def readItems (item : Reader α) : Reader (List α) := fun input =>
  match h : skipSpace input with
  | ']' :: rest => .ok ⟨[], rest, length_lt_of_skipSpace h⟩
  | _ =>
    match item input with
    | .error e => .error e
    | .ok c =>
      match readMoreItems item [c.value] c.rest with
      | .error e => .error e
      | .ok all => .ok (all.widen (Nat.le_of_lt c.shorter))

def readColon : Reader Unit :=
  spaced fun c _ => if c = ':' then .ok (.one ()) else .error .malformed

/-- The members of an object from a key on. What becomes of a member is settled as soon as its key is read. -/
def readMembers (member : String → σ → Except Problem (Reader σ)) (state : σ) : Reader σ := fun input =>
  match hq : skipSpace input with
  | [] => .error .truncated
  | '"' :: rest =>
    match readQuoted rest with
    | .error e => .error e
    | .ok key =>
      match member key.value state with
      | .error e => .error e
      | .ok value =>
        match readColon key.rest with
        | .error e => .error e
        | .ok colon =>
          match value colon.rest with
          | .error e => .error e
          | .ok next =>
            have hn : next.rest.length < input.length :=
              Nat.lt_trans next.shorter (Nat.lt_trans colon.shorter (Nat.lt_trans key.shorter (length_lt_of_skipSpace hq)))
            match h : skipSpace next.rest with
            | [] => .error .truncated
            | '\x7d' :: rest => .ok ⟨next.value, rest, Nat.lt_trans (length_lt_of_skipSpace h) hn⟩
            | ',' :: rest =>
              have hr : rest.length < input.length := Nat.lt_trans (length_lt_of_skipSpace h) hn
              match readMembers member next.value rest with
              | .error e => .error e
              | .ok all => .ok (all.widen (Nat.le_of_lt hr))
            | _ => .error .malformed
  | _ => .error .malformed
termination_by input => input.length

def readObject (member : String → σ → Except Problem (Reader σ)) (start : σ) : Reader σ := fun input =>
  match h : skipSpace input with
  | '\x7d' :: rest => .ok ⟨start, rest, length_lt_of_skipSpace h⟩
  | _ => readMembers member start input

def startsNumber (c : Char) : Bool := c = '-' || c.isDigit

/-- A value other than an array or object, whose first character is `c`. -/
def readScalar (c : Char) (rest : List Char) : Except Problem (Consumed Value (c :: rest)) :=
  match c with
  | 'n' => Reader.behind _ rest (readWord Value.null "ull".toList)
  | 't' => Reader.behind _ rest (readWord (Value.bool true) "rue".toList)
  | 'f' => Reader.behind _ rest (readWord (Value.bool false) "alse".toList)
  | '"' => Reader.behind _ rest (fun input => (readQuoted input).map (.map Value.string))
  | c => if startsNumber c then (readNumber (c :: rest)).map (.map Value.number) else .error .malformed

/-- A value with at most `levels` arrays and objects inside each other. -/
def readValue : (levels : Nat) → Reader Value
  | 0 => spaced fun c rest => if c = '[' || c = '\x7b' then .error .malformed else readScalar c rest
  | levels + 1 =>
    spaced fun c rest =>
      match c with
      | '[' => Reader.behind _ rest fun input => (readItems (readValue levels) input).map (.map Value.array)
      | '\x7b' =>
        let member (key : String) (fields : List (String × Value)) : Except Problem (Reader (List (String × Value))) :=
          .ok fun input => (readValue levels input).map (.map fun v => insertField key v fields)
        Reader.behind _ rest fun input => (readObject member [] input).map (.map Value.object)
      | c => readScalar c rest

/-- How deep arrays and objects may be nested. -/
def maxLevels : Nat := 127

/-- What is wrong where another type is asked for: a scalar is read to its end before its type is minded. -/
def mismatch (c : Char) (rest : List Char) : Problem :=
  if c = '[' || c = '\x7b' then .mismatched
  else
    match readScalar c rest with
    | .error e => e
    | .ok _ => .mismatched

def readArray : Reader (List Value) :=
  spaced fun c rest =>
    if c = '[' then Reader.behind c rest (readItems (readValue (maxLevels - 1))) else .error (mismatch c rest)

/-- Reads the whole of a text, space around it apart. -/
def readAll (r : Reader α) (text : List Char) : Except Problem α :=
  match r text with
  | .error e => .error e
  | .ok c => if (skipSpace c.rest).isEmpty then .ok c.value else .error .malformed

end FrameLog.Json
