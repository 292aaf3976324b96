import FrameLog.Command.Path

/-! A system held in memory: the files of one directory, an input, and what is printed. -/
namespace FrameLog.Command

inductive Entry
  | file (content : Bytes)
  | directory
deriving DecidableEq

/--
Where a path leads: the names on the way there from the directory of the machine. In front stand `..` for each
directory above, or `/` for the root.
-/
abbrev Place := List String

namespace Place

/-- Names that stand in front only. -/
def isAnchorName (name : String) : Bool := name = ".." || name = "/"

/-- The directory of the machine, one above it, or the root: these are always there. -/
def isAnchor (place : Place) : Bool := place.all isAnchorName

def isInside (place : Place) : Bool := !place.isEmpty && !place.any isAnchorName

def up (place : Place) : Place :=
  match place.getLast? with
  | none | some ".." => place ++ [".."]
  | some "/" => place
  | some _ => place.dropLast

def step (place : Place) : Step → Except FileProblem Place
  | .stay => .ok place
  | .up => .ok place.up
  | .enter name => if Path.maxNameSize < name.utf8ByteSize then .error .nameTooLong else .ok (place ++ [name])

def start (path : Path) : Place := if path.absolute then ["/"] else []

end Place

structure Machine where
  entries : List (Place × Entry)
  input : Bytes := []
  output : List Char := []

namespace Machine

/-- A directory is there if it is listed or holds something. -/
def lookup (machine : Machine) (place : Place) : Option Entry :=
  if place.isAnchor then some .directory
  else
    match machine.entries.find? (·.1 = place) with
    | some (_, entry) => some entry
    | none => if machine.entries.any fun (other, _) => place.isPrefixOf other then some .directory else none

def requireDirectory (machine : Machine) (place : Place) : Except FileProblem Unit :=
  match machine.lookup place with
  | none => .error .notFound
  | some (.file _) => .error .notDirectory
  | some .directory => .ok ()

/-- Steps are taken from directories that are there; the last may lead to a place where nothing is. -/
def walk (machine : Machine) : Place → List Step → Except FileProblem Place
  | place, [] => .ok place
  | place, step :: rest => do
    machine.requireDirectory place
    machine.walk (← place.step step) rest

def read (machine : Machine) (text : String) : Except FileProblem Bytes := do
  let path ← Path.ofString text
  let place ← machine.walk (Place.start path) path.steps
  if path.trailingSlash then machine.requireDirectory place
  match machine.lookup place with
  | none => throw .notFound
  | some .directory => throw .isDirectory
  | some (.file content) => return content

def put (place : Place) (entry : Entry) : List (Place × Entry) → List (Place × Entry)
  | [] => [(place, entry)]
  | (other, old) :: rest => if other = place then (place, entry) :: rest else (other, old) :: put place entry rest

/-- The place of a file to be written, where there may be a file but no directory. -/
def target (machine : Machine) (path : Path) : Except FileProblem Place := do
  if path.trailingSlash then
    machine.requireDirectory (← machine.walk (Place.start path) path.steps.dropLast)
    throw .isDirectory
  let place ← machine.walk (Place.start path) path.steps
  if machine.lookup place = some .directory then throw .isDirectory
  return place

def write (machine : Machine) (text : String) (content : Bytes) : Except FileProblem Machine := do
  let place ← machine.target (← Path.ofString text)
  return { machine with entries := put place (.file content) machine.entries }

end Machine

instance : Host (StateM Machine) where
  readFile path := return (← get).read path
  readInput := return .ok (← get).input
  writeFile path content := do
    match (← get).write path content with
    | .error e => return .error e
    | .ok machine =>
      set machine
      return .ok ()
  print text := modify fun machine => { machine with output := machine.output ++ text }

end FrameLog.Command
