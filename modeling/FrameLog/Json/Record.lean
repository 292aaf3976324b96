import FrameLog.Json.Skip

/-! Records: read from an object by the names of their fields, or from an array in the order of these. -/
namespace FrameLog.Json

variable {σ : Type}

/-- A field of a record that is read step by step into a state. -/
structure RecordField (σ : Type) where
  name : String
  isSet : σ → Bool
  read : σ → Reader σ

/-- A member is the field of its name, which may not be there twice; others are passed over. -/
def recordMember (fields : List (RecordField σ)) (key : String) (state : σ) : Except Problem (Reader σ) :=
  match fields.find? (·.name = key) with
  | none => .ok fun input => (skipValue input).map (.map fun _ => state)
  | some field => if field.isSet state then .error .mismatched else .ok (field.read state)

/-- Behind the last field only the end of the array may come. -/
def readEnd (state : σ) : Reader σ :=
  spaced fun c _ => if c = ']' then .ok (.one state) else .error .malformed

/-- The fields from behind another one; the array may end before all are read. -/
def readMoreFields (state : σ) : List (RecordField σ) → Reader σ
  | [] => readEnd state
  | field :: fields =>
    spaced fun c rest =>
      if c = ']' then .ok (.one state)
      else if c = ',' then
        match spaced (fun d more => if d = ']' then .error .malformed else field.read state (d :: more)) rest with
        | .error e => .error e
        | .ok next =>
          (readMoreFields next.value fields next.rest).map
            (.widen (by have := next.shorter; simp only [List.length_cons]; omega))
      else .error .malformed

def readFields (state : σ) : List (RecordField σ) → Reader σ
  | [] => readEnd state
  | field :: fields =>
    spaced fun c rest =>
      if c = ']' then .ok (.one state)
      else
        match field.read state (c :: rest) with
        | .error e => .error e
        | .ok next => (readMoreFields next.value fields next.rest).map (.widen (Nat.le_of_lt next.shorter))

def readRecord (fields : List (RecordField σ)) (start : σ) : Reader σ :=
  spaced fun c rest =>
    if c = '\x7b' then Reader.behind c rest (readObject (recordMember fields) start)
    else if c = '[' then Reader.behind c rest (readFields start fields)
    else .error (mismatch c rest)

def readNumberAs {α : Type} (select : Number → Option α) : Reader α :=
  spaced fun c rest =>
    if startsNumber c then
      match readNumber (c :: rest) with
      | .error e => .error e
      | .ok n =>
        match select n.value with
        | some x => .ok ⟨x, n.rest, n.shorter⟩
        | none => .error .mismatched
    else .error (mismatch c rest)

def readNatural (limit : Nat) : Reader Nat :=
  readNumberAs fun
    | .natural n => if n < limit then some n else none
    | _ => none

def readSingle : Reader Binary :=
  readNumberAs fun
    | .natural n => some (.ofNat .single n)
    | .negative n => some (.ofInt .single (-n))
    | .single x | .double x => some (x.convert .single)

def readBool : Reader Bool :=
  spaced fun c rest =>
    if c = 't' then Reader.behind c rest (readWord true "rue".toList)
    else if c = 'f' then Reader.behind c rest (readWord false "alse".toList)
    else .error (mismatch c rest)

/-- A reader whose result goes into the state by `put`. -/
def RecordField.of {α : Type} (name : String) (get : σ → Option α) (put : σ → α → σ) (r : Reader α) : RecordField σ where
  name := name
  isSet := fun s => (get s).isSome
  read := fun s input => (r input).map (.map (put s))

/-- A record that `finish` completes, or finds incomplete. -/
def Reader.finish {α : Type} (r : Reader σ) (complete : σ → Option α) : Reader α := fun input =>
  match r input with
  | .error e => .error e
  | .ok c =>
    match complete c.value with
    | some x => .ok (c.map fun _ => x)
    | none => .error .mismatched

end FrameLog.Json
