import FrameLog.Store.Append
import FrameLog.Store.Create
import FrameLog.Store.Read
import FrameLog.Proofs.Log

/-!
# Runs

A store is made in one of four ways and then gets request after request, each with an allocator of its own. Beside
the run goes the log of the payloads that are in the store.
-/

namespace FrameLog.Store

/-! ## What is asked and what is answered -/

inductive Reading
  | get (i : Nat)
  | getWithPrefix (i : Nat)
  | getRange (start count : Nat)
  /-- A visit that takes down what it is shown. -/
  | iterate (start stop : Nat)
  | range (start stop pulls : Nat)
  | frames (pulls : Nat)
  | bytes
  | written
  | stats
  | table
  | description

inductive Operation
  | append (payload : Bytes)
  | appendText (text : List Char)
  | extend (payloads : List Bytes)
  | reset (clearBuffer : Bool)
  | clear (capacity : Option Nat)
  | dispose
  | read (reading : Reading)

inductive Value
  | done
  | bucket (bucket : Bucket)
  | count (n : Nat)
  | view (view : View UInt8)
  | bytes (bytes : Bytes)
  /-- What pulling at an iterator gave, and how many payloads it then says are left. -/
  | pulled (items : List (Option (Outcome (View UInt8)))) (left : Nat × Option Nat)
  | stats (stats : Stats)
  | table (table : Table)
  | description (text : Described)

structure Answer where
  outcome : Outcome Value
  visits : List (Nat × View UInt8) := []

def Value.failures : Value → List Failure
  | .pulled items _ => items.filterMap fun
    | some (.error e) => some e
    | _ => none
  | _ => []

/-- All failures that an answer tells of. -/
def Answer.failures (answer : Answer) : List Failure :=
  match answer.outcome with
  | .ok value => value.failures
  | .error e => [e]

def Answer.succeeds (answer : Answer) : Bool := answer.outcome.isOk

/-- There was no room, and none was to be had. -/
def Answer.starved (answer : Answer) : Bool :=
  match answer.outcome with
  | .error (.refused (.outOfMemory _ _)) => true
  | _ => false

/-- Pulls a number of times, also where no payload is left. -/
def Frames.pull (f : Frames) : Nat → List (Option (Outcome (View UInt8))) × Frames
  | 0 => ([], f)
  | n + 1 =>
    let (item, g) := f.next
    let (items, rest) := g.pull n
    (item :: items, rest)

def Frames.pulled (pulls : Nat) (f : Frames) : Value :=
  let (items, rest) := f.pull pulls
  .pulled items rest.sizeHint

def Reading.answer (s : Store) : Reading → Answer
  | .get i => { outcome := (s.get i).map .view }
  | .getWithPrefix i => { outcome := (s.getWithPrefix i).map .view }
  | .getRange start count => { outcome := (s.getRange start count).map .view }
  | .iterate start stop =>
    match s.iterate start stop (fun step frame visits => visits ++ [(step, frame)]) [] with
    | .ok _ visits => { outcome := .ok .done, visits }
    | .error e visits => { outcome := .error e, visits }
  | .range start stop pulls => { outcome := (s.range start stop).map (Frames.pulled pulls) }
  | .frames pulls => { outcome := s.frames.map (Frames.pulled pulls) }
  | .bytes => { outcome := s.bytes.map .view }
  | .written => { outcome := s.written.map .bytes }
  | .stats => { outcome := .ok (.stats s.stats) }
  | .table => { outcome := .ok (.table s.buckets) }
  | .description => { outcome := .ok (.description s.describe) }

def settle {α : Type} (value : α → Value) : EStateM.Result Failure Store α → Answer × Store
  | .ok a s => ({ outcome := .ok (value a) }, s)
  | .error e s => ({ outcome := .error e }, s)

def Operation.perform (alloc : Allocator) (s : Store) : Operation → Answer × Store
  | .append payload => settle .bucket (Store.append alloc payload s)
  | .appendText text => settle .bucket (Store.appendText alloc text s)
  | .extend payloads => settle .count (Store.extend alloc payloads s)
  | .reset clearBuffer => settle (fun _ => .done) (Store.reset clearBuffer s)
  | .clear capacity => settle (fun _ => .done) (Store.clear alloc capacity s)
  | .dispose => settle (fun _ => .done) (Store.dispose s)
  | .read reading => (reading.answer s, s)

/-! ## The log beside the store -/

/-- The payloads that go in before the first that is turned down. -/
def accepted (alloc : Allocator) : List Bytes → Store → Log
  | [], _ => []
  | payload :: rest, s =>
    match append alloc payload s with
    | .ok _ t => payload :: accepted alloc rest t
    | .error _ _ => []

/-- The log after an operation on a store that held `log`. -/
def Operation.log (alloc : Allocator) (s : Store) (log : Log) : Operation → Log
  | .append payload => log ++ accepted alloc [payload] s
  | .appendText text => log ++ accepted alloc [Utf8.encode text] s
  | .extend payloads => log ++ accepted alloc payloads s
  | .reset _ | .clear _ | .dispose => []
  | .read _ => log

structure Request where
  alloc : Allocator
  operation : Operation

def Request.perform (request : Request) (s : Store) : Answer × Store := request.operation.perform request.alloc s

def run : List Request → Store → List Answer × Store
  | [], s => ([], s)
  | request :: rest, s =>
    let (answer, t) := request.perform s
    let (answers, u) := run rest t
    (answer :: answers, u)

/-- The log at the end of a run that began with `log`. -/
def logAfter : List Request → Store → Log → Log
  | [], _, log => log
  | request :: rest, s, log =>
    logAfter rest (request.perform s).2 (request.operation.log request.alloc s log)

/-! ## Where runs begin -/

/-- How a store is made. A buffer that is given is no larger than an allocation can be. -/
inductive Origin
  | create (config : Config)
  | ofBuffer (buffer : Buffer) (bucketSize : Nat) (addressable : buffer.capacity ≤ maxAllocation)
  | adopt (buffer : Buffer) (dataLength bucketSize : Nat) (addressable : buffer.capacity ≤ maxAllocation)
  | ofBytes (data : Bytes) (config : Config)

namespace Origin

def build (alloc : Allocator) : Origin → Outcome Store
  | .create config => Store.create alloc config
  | .ofBuffer buffer bucketSize _ => Store.ofBuffer buffer bucketSize
  | .adopt buffer dataLength bucketSize _ => Store.adopt buffer dataLength bucketSize
  | .ofBytes data config => Store.ofBytes alloc data config

def data : Origin → Bytes
  | .create _ | .ofBuffer .. => []
  | .adopt buffer dataLength _ _ => buffer.bytes.take dataLength
  | .ofBytes data _ => data

/-- The buffer that the store has at first. -/
def buffer : Origin → Buffer
  | .create config => ⟨Bytes.zeros config.initialCapacity, config.expansion⟩
  | .ofBuffer buffer .. | .adopt buffer .. => buffer
  | .ofBytes data config => ⟨data ++ Bytes.zeros (config.initialCapacity - data.length), config.expansion⟩

end Origin

/-- Some run leads to the store. -/
def Reachable (s : Store) : Prop :=
  ∃ (origin : Origin) (alloc : Allocator) (first : Store) (requests : List Request),
    origin.build alloc = .ok first ∧ (run requests first).2 = s

end FrameLog.Store
