import FrameLog.Json.Reader

/-! Passing over a value of any depth without keeping it. -/
namespace FrameLog.Json

/-- What is open around the place that is read. -/
inductive Bracket
  | array
  | object
deriving DecidableEq, Repr

def skipKey : Reader Unit :=
  spaced fun c rest =>
    if c = '"' then
      match skipQuoted rest with
      | .error e => .error e
      | .ok key => (readColon key.rest).map (.widen (by have := key.shorter; simp only [List.length_cons]; omega))
    else .error .malformed

/-- Passes over a value other than an array or object, whose first character is `c`. -/
def skipScalar (c : Char) (rest : List Char) : Except Problem (Consumed Unit (c :: rest)) :=
  match c with
  | '"' => Reader.behind _ rest skipQuoted
  | c =>
    if startsNumber c then skipNumber (c :: rest) else (readScalar c rest).map (.map fun _ => ())

def closes (b : Bracket) (c : Char) : Bool :=
  match b with
  | .array => c = ']'
  | .object => c = '\x7d'

mutual
/-- Passes over a value and over what closes the brackets open around it. -/
def skipNested (opened : List Bracket) (input : List Char) : Except Problem (Consumed Unit input) :=
  match h : skipSpace input with
  | [] => .error .truncated
  | c :: rest =>
    have hr : rest.length < input.length := length_lt_of_skipSpace h
    if c = '[' || c = '\x7b' then
      let b := if c = '[' then Bracket.array else .object
      match hs : skipSpace rest with
      | [] => .error .truncated
      | d :: more =>
        if closes b d then
          have hm : more.length < rest.length := length_lt_of_skipSpace hs
          afterNested opened more (Nat.lt_trans hm hr)
        else
          match b with
          | .array => (skipNested (b :: opened) rest).map (.widen (Nat.le_of_lt hr))
          | .object =>
            match skipKey rest with
            | .error e => .error e
            | .ok key =>
              have hk : key.rest.length < input.length := Nat.lt_trans key.shorter hr
              (skipNested (b :: opened) key.rest).map (.widen (Nat.le_of_lt hk))
    else
      match skipScalar c rest with
      | .error e => .error e
      | .ok s =>
        have hs : s.rest.length < input.length :=
          Nat.lt_of_lt_of_le s.shorter (Nat.succ_le_of_lt hr)
        afterNested opened s.rest hs
termination_by (input.length, 1)

/-- Passes over what follows a value inside the open brackets. -/
def afterNested {whole : List Char} (opened : List Bracket) (input : List Char)
    (hw : input.length < whole.length) : Except Problem (Consumed Unit whole) :=
  match opened with
  | [] => .ok ⟨(), input, hw⟩
  | b :: opened =>
    match h : skipSpace input with
    | [] => .error .truncated
    | c :: rest =>
      have hr : rest.length < input.length := length_lt_of_skipSpace h
      if closes b c then afterNested opened rest (Nat.lt_trans hr hw)
      else if c = ',' then
        match b with
        | .array => (skipNested (b :: opened) rest).map (.widen (Nat.le_of_lt (Nat.lt_trans hr hw)))
        | .object =>
          match skipKey rest with
          | .error e => .error e
          | .ok key =>
            have hk : key.rest.length < input.length := Nat.lt_trans key.shorter hr
            (skipNested (b :: opened) key.rest).map (.widen (Nat.le_of_lt (Nat.lt_trans hk hw)))
      else .error .malformed
termination_by (input.length, 0)
end

def skipValue : Reader Unit := skipNested []

end FrameLog.Json
