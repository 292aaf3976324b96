import FrameLog.Store.Append
import FrameLog.Store.Create
import FrameLog.Store.Read

/-! Checks on arbitrary bytes that a store reads back what it holds. -/
namespace FrameLog.Store

def succeeds {α : Type} : Outcome α → Bool
  | .ok _ => true
  | .error _ => false

def Frames.readable (f : Frames) : Bool := go f f.remaining
where
  go (f : Frames) : Nat → Bool
    | 0 => true
    | n + 1 =>
      match f.next with
      | (some (.ok _), f) => go f n
      | (some (.error _), _) => false
      | (none, _) => true

/-- Bytes are either turned down or can be read frame by frame, in order and by number. -/
def checkAdopted (alloc : Allocator) (data : Bytes) : Bool :=
  let bucketSize := (data.head?.elim 0 fun b => b.toNat % 16) + 1
  match ofBytes alloc data { bucketSize } with
  | .error (.fault _) => false
  | .error (.refused _) => true
  | .ok s =>
    (match s.frames with
      | .ok f => f.readable
      | .error _ => true) &&
    (List.range s.frameCount).all fun i => succeeds (s.get i)

def splitAtZeros (data : Bytes) : List Bytes := data.splitOn 0

def configOf (head : UInt8) : Config :=
  { bucketSize := head.toNat % 8 + 1, initialCapacity := head.toNat, expansion := .growable Expansion.defaultFactor }

def readsBack (s : Store) (payload : Bytes) (i : Nat) : Bool :=
  match s.get i with
  | .ok frame => frame.elements == payload
  | .error _ => false

/-- Payloads cut out of the bytes read back as they were appended. -/
def checkAppended (alloc : Allocator) : Bytes → Bool
  | [] => true
  | head :: rest =>
    let payloads := splitAtZeros rest
    match create alloc (configOf head) with
    | .error (.fault _) => false
    | .error (.refused _) => true
    | .ok s =>
      match extend alloc payloads s with
      | .error (.fault _) _ => false
      | .error (.refused _) _ => true
      | .ok _ s => payloads.zipIdx.all fun (payload, i) => s.readsBack payload i

end FrameLog.Store
