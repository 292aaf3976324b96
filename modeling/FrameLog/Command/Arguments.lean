import FrameLog.Command.Options
import FrameLog.Command.Payloads
import FrameLog.Command.Switch
import FrameLog.Decimal.Read

/-! The command line: which command with which arguments is asked for. -/
namespace FrameLog.Command

inductive Request
  | pack (input output : String) (format : Format) (options : Options)
  | inspect (input : String) (bucketSize : Nat) (json : Bool)
  | get (input : String) (bucketSize index count : Nat) (hex : Bool)

/-- Digits with an optional plus, for a number below the limit. -/
def readUnsigned (limit : Nat) (text : String) : Option Nat :=
  let digits :=
    match text.toList with
    | '+' :: rest => rest
    | cs => cs
  if digits.isEmpty || !digits.all Char.isDigit then none
  else
    let n := Decimal.ofDigits digits
    if n < limit then some n else none

def readSize : String → Option Nat := readUnsigned (Word.limit + 1)

/-- Counts of frames in a bucket may have a minus, which leaves only zero. -/
def readCount (text : String) : Option Nat :=
  match text.toList with
  | '-' :: rest => if rest.head? = some '+' then none else readUnsigned 1 (String.ofList rest)
  | _ => readUnsigned 0x100000000 text

def readFactor (text : String) : Option Binary := Decimal.read? .single text.toList

def readFormat : String → Option Format
  | "json" => some .json
  | "jsonl" => some .jsonLines
  | _ => none

def defaultBucketSize : Nat := 64

structure Verbosity where
  verbose : Bool := false

structure PackArguments where
  input : Option String := none
  output : Option String := none
  format : Option Format := none
  options : Options := {}
  progress : Bool := false
  verbose : Bool := false

namespace PackArguments

def switches : List (Switch PackArguments) :=
  [.value "input" some input (fun a x => { a with input := some x }) 'i',
    .value "output" some output (fun a x => { a with output := some x }) 'o',
    .value "format" readFormat format (fun a x => { a with format := some x }),
    .value "config" some (·.options.config) (fun a x => { a with options.config := some x }),
    .value "bucket-size" readCount (·.options.bucketSize) (fun a x => { a with options.bucketSize := some x }),
    .value "capacity" readSize (·.options.capacity) (fun a x => { a with options.capacity := some x }),
    .value "factor" readFactor (·.options.factor) (fun a x => { a with options.factor := some x }),
    .flag "no-expand" (·.options.noExpand) (fun a => { a with options.noExpand := true }),
    .flag "progress" progress (fun a => { a with progress := true }),
    .flag "verbose" verbose (fun a => { a with verbose := true }) 'v',
    .help]

def request? (a : PackArguments) : Option Request :=
  return .pack (← a.input) (← a.output) (a.format.getD .json) a.options

end PackArguments

structure InspectArguments where
  input : Option String := none
  bucketSize : Option Nat := none
  json : Bool := false
  verbose : Bool := false

namespace InspectArguments

def switches : List (Switch InspectArguments) :=
  [.value "input" some input (fun a x => { a with input := some x }) 'i',
    .value "bucket-size" readCount bucketSize (fun a x => { a with bucketSize := some x }),
    .flag "json" json (fun a => { a with json := true }),
    .flag "verbose" verbose (fun a => { a with verbose := true }) 'v',
    .help]

def request? (a : InspectArguments) : Option Request :=
  return .inspect (← a.input) (a.bucketSize.getD defaultBucketSize) a.json

end InspectArguments

structure GetArguments where
  input : Option String := none
  index : Option Nat := none
  count : Option Nat := none
  bucketSize : Option Nat := none
  hex : Bool := false
  verbose : Bool := false

namespace GetArguments

def switches : List (Switch GetArguments) :=
  [.value "input" some input (fun a x => { a with input := some x }) 'i',
    .value "index" readSize index (fun a x => { a with index := some x }),
    .value "count" readSize count (fun a x => { a with count := some x }),
    .value "bucket-size" readCount bucketSize (fun a x => { a with bucketSize := some x }),
    .flag "hex" hex (fun a => { a with hex := true }),
    .flag "verbose" verbose (fun a => { a with verbose := true }) 'v',
    .help]

def request? (a : GetArguments) : Option Request :=
  return .get (← a.input) (a.bucketSize.getD defaultBucketSize) (← a.index) (a.count.getD 1) a.hex

end GetArguments

namespace Request

/-- All switches of a command read, what it needs has to be there. -/
def read {σ : Type} (switches : List (Switch σ)) (start : σ) (request? : σ → Option Request) (arguments : List String) :
    Except Early Request := do
  Switch.orUsage (request? (← Switch.readAll switches none arguments start))

/-- The names of the commands; help is one for the reader of the arguments. -/
def names : List String := ["pack", "inspect", "get", "help"]

def readHelp : List String → Early
  | [] => .help
  | [name] => if names.contains name then .help else .usage
  | _ => .usage

def readCommand (name : String) (arguments : List String) : Except Early Request :=
  match name with
  | "pack" => read PackArguments.switches {} PackArguments.request? arguments
  | "inspect" => read InspectArguments.switches {} InspectArguments.request? arguments
  | "get" => read GetArguments.switches {} GetArguments.request? arguments
  | "help" => .error (readHelp arguments)
  | _ => .error .usage

def switches : List (Switch Verbosity) :=
  [.flag "verbose" Verbosity.verbose (fun _ => ⟨true⟩) 'v', .help, ⟨"version", some 'V', .leave .version⟩]

/-- Reads switches up to the name of the command, and the rest as its own. -/
def readFrom (state : Verbosity) : List String → Except Early Request
  | [] => .error .usage
  | argument :: rest =>
    if argument = "--" then .error .usage
    else
      match Switch.read? switches argument state with
      | none => readCommand argument rest
      | some (.error early) => .error early
      | some (.ok (state, _)) => readFrom state rest

def ofArguments (arguments : List String) : Except Early Request := readFrom {} arguments

end Request
end FrameLog.Command
