import FrameLog.Command.Machine
import FrameLog.Main
import FrameLog.Store.SelfCheck
import FrameLog.Proofs.Log
import FrameLog.Proofs.Partition
import FrameLog.Proofs.Cursor
import FrameLog.Proofs.Binary
import FrameLog.Proofs.Growth
import FrameLog.Proofs.Growth.Steps
import FrameLog.Proofs.View
import FrameLog.Proofs.MutView
import FrameLog.Proofs.Buffer
import FrameLog.Proofs.Buffer.History
import FrameLog.Proofs.Store.Invariant
import FrameLog.Proofs.Store.Read
import FrameLog.Proofs.Store.Scan
import FrameLog.Proofs.Store.Adoption
import FrameLog.Proofs.Store.Run
import FrameLog.Proofs.Store.Answers
import FrameLog.Proofs.Store.Refinement
import FrameLog.Proofs.Store.Sequential
import FrameLog.Proofs.Store.Tiling
import FrameLog.Proofs.Store.Creation
import FrameLog.Proofs.Store.Faultless
import FrameLog.Proofs.Store.Index
import FrameLog.Proofs.Store.Reload
import FrameLog.Proofs.Store.Admission
import FrameLog.Proofs.Store.Failing
import FrameLog.Proofs.Store.Twins
import FrameLog.Proofs.Store.BucketSize
import FrameLog.Proofs.Store.Spare
import FrameLog.Proofs.Store.Capacity
import FrameLog.Proofs.Store.Limit
import FrameLog.Proofs.Store.SelfCheck
import FrameLog.Proofs.Command.Machine
import FrameLog.Proofs.Store.Disposal
import FrameLog.Proofs.Utf8
import FrameLog.Proofs.Lines
import FrameLog.Proofs.Command.Pack
import FrameLog.Proofs.Command.RoundTrip
import FrameLog.Proofs.Command.Reservation
import FrameLog.Proofs.Command.Selection
import FrameLog.Proofs.Command.Payloads
import FrameLog.Proofs.Json.Reader
import FrameLog.Proofs.Json.Record
import FrameLog.Proofs.Json.Schema
import FrameLog.Proofs.Json.Quoted
import FrameLog.Proofs.Json.Written
import FrameLog.Proofs.Command.Configuration
import FrameLog.Proofs.Command.AllOrNothing
import FrameLog.Proofs.Command.Policy
