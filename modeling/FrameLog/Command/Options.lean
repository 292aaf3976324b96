import FrameLog.Command.Failure
import FrameLog.Json.Schema

/-! The configuration that a file and the options of the command line make together. -/
namespace FrameLog.Command

structure Options where
  config : Option String := none
  bucketSize : Option Nat := none
  capacity : Option Nat := none
  factor : Option Binary := none
  noExpand : Bool := false

namespace Options

/-- Where no file says otherwise a store may grow, for its size is not known beforehand. -/
def standard : Config := { expansion := .growable Expansion.defaultFactor }

/-- Options override the configuration they start from. A factor allows growth, unless growth is forbidden. -/
def merge (o : Options) (base : Config) : Config :=
  let expansion := o.factor.elim base.expansion Expansion.growable
  { base with
    bucketSize := o.bucketSize.getD base.bucketSize
    initialCapacity := o.capacity.getD base.initialCapacity
    expansion := if o.noExpand then { expansion with allowed := false } else expansion }

variable {m : Type → Type} [Monad m] [Host m]

def readConfig (path : String) : Run m Config := do
  let bytes ← request (.readConfig path) (Host.readFile path)
  match Utf8.decode bytes with
  | .error _ => throw (.failed (.readConfig path) (.file .invalidData))
  | .ok text =>
    match Json.readAll Config.readJson text with
    | .error problem => throw (.failed (.parseConfig path) (.json problem))
    | .ok config => return config

def base (o : Options) : Run m Config :=
  match o.config with
  | none => return standard
  | some path => readConfig path

def resolve (o : Options) : Run m Config := do
  let config := o.merge (← o.base)
  atStage .validateConfig config.validate
  return config

end Options
end FrameLog.Command
