/-! Reading the arguments of a command line: switches with and without values, long and in clusters of letters. -/
namespace FrameLog.Command

inductive Early
  | help
  | version
  | usage
deriving DecidableEq, Repr

/-- What a switch does to the state of reading; nothing if it may not stand there. -/
inductive Effect (σ : Type)
  | flag (set : σ → Option σ)
  | value (set : String → σ → Option σ)
  | leave (early : Early)

structure Switch (σ : Type) where
  long : String
  letter : Option Char := none
  effect : Effect σ

namespace Switch

variable {σ α : Type}

def flag (long : String) (get : σ → Bool) (put : σ → σ) (letter : Option Char := none) : Switch σ where
  long := long
  letter := letter
  effect := .flag fun s => if get s then none else some (put s)

/-- A switch with a value that `read` understands, which may stand there once. -/
def value (long : String) (read : String → Option α) (get : σ → Option α) (put : σ → α → σ)
    (letter : Option Char := none) : Switch σ where
  long := long
  letter := letter
  effect := .value fun text s => if (get s).isSome then none else (read text).map (put s)

def help : Switch σ := ⟨"help", some 'h', .leave .help⟩

/-- A switch that waits for its value. -/
abbrev Waiting (σ : Type) := Option (String → σ → Option σ)

def orUsage : Option α → Except Early α
  | some a => .ok a
  | none => .error .usage

/-- Letters in one argument. The first that has a value takes the others as this, an equals sign before it apart. -/
def readLetters (switches : List (Switch σ)) : List Char → σ → Except Early (σ × Waiting σ)
  | [], s => .ok (s, none)
  | c :: rest, s =>
    match switches.find? (·.letter = some c) with
    | none => .error .usage
    | some switch =>
      match switch.effect with
      | .leave early => .error early
      | .flag set => do readLetters switches rest (← orUsage (set s))
      | .value set =>
        match rest with
        | [] => .ok (s, some set)
        | '=' :: text | text => do return (← orUsage (set (String.ofList text) s), none)

/-- A long name, perhaps with a value behind an equals sign. -/
def readLong (switches : List (Switch σ)) (name : List Char) (text : Option (List Char)) (s : σ) :
    Except Early (σ × Waiting σ) :=
  match switches.find? (·.long.toList = name) with
  | none => .error .usage
  | some switch =>
    match switch.effect, text with
    | .leave _, some _ | .flag _, some _ => .error .usage
    | .leave early, none => .error early
    | .flag set, none => do return (← orUsage (set s), none)
    | .value set, none => .ok (s, some set)
    | .value set, some text => do return (← orUsage (set (String.ofList text) s), none)

/-- An argument that begins with a dash and is more than that; nothing for any other. -/
def read? (switches : List (Switch σ)) (argument : String) (s : σ) : Option (Except Early (σ × Waiting σ)) :=
  match argument.toList with
  | '-' :: '-' :: name =>
    let (key, value) := name.span (· ≠ '=')
    some (readLong switches key (if value.isEmpty then none else some (value.drop 1)) s)
  | '-' :: c :: letters => some (readLetters switches (c :: letters) s)
  | _ => none

def looksLikeSwitch (argument : String) : Bool :=
  match argument.toList with
  | '-' :: _ :: _ => true
  | _ => false

/-- Reads arguments that are all switches and their values. Two dashes may end them. -/
def readAll (switches : List (Switch σ)) : Waiting σ → List String → σ → Except Early σ
  | none, [], s => .ok s
  | some _, [], _ => .error .usage
  | some set, argument :: rest, s =>
    if looksLikeSwitch argument then .error .usage
    else do readAll switches none rest (← orUsage (set argument s))
  | none, argument :: rest, s =>
    if argument = "--" then if rest.isEmpty then .ok s else .error .usage
    else
      match read? switches argument s with
      | none => .error .usage
      | some (.error early) => .error early
      | some (.ok (s, waiting)) => readAll switches waiting rest s

end Switch
end FrameLog.Command
