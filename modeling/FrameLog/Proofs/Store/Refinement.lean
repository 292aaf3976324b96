import FrameLog.Proofs.Store.Adoption
import FrameLog.Proofs.Store.Disposal

/-!
# A store is its log

Every request takes a store that holds a log to one that holds the log after it, or disposes of the store. By
induction a whole run does, and so whatever is read at its end is what the log says (`run_refines_log`).
-/

namespace FrameLog.Store

open Log

variable {α : Type} {s t : Store} {buffer : Buffer} {log : Log} {alloc : Allocator}

/-- The log goes with the store, which holds it or is out of use. -/
def Tracks (log : Log) (s : Store) : Prop := Released s ∨ ∃ buffer, Holds s buffer log

/-- An action ends in `t`, with a value or with a benign failure. -/
def Ends (x : EStateM.Result Failure Store α) (t : Store) : Prop :=
  (∃ a, x = .ok a t) ∨ ∃ e, x = .error e t ∧ e.Benign

theorem Ends.settle {x : EStateM.Result Failure Store α} {value : α → Value} {P : Store → Prop} (h : Ends x t)
    (hvalue : ∀ a, (value a).failures = []) (ht : P t) : (settle value x).1.Benign ∧ P (settle value x).2 := by
  rcases h with ⟨a, rfl⟩ | ⟨e, rfl, hbenign⟩
  · refine ⟨fun e he => ?_, ht⟩
    have hnone : (Store.settle value (.ok a t)).1.failures = [] := hvalue a
    rw [hnone] at he
    cases he
  · refine ⟨fun e' he => ?_, ht⟩
    obtain rfl := List.mem_singleton.mp he
    exact hbenign

/-! ## One request -/

namespace Holds

theorem append_ends (h : Holds s buffer log) (alloc : Allocator) (payload : Bytes) :
    ∃ t c, Holds t c (log ++ accepted alloc [payload] s) ∧ Ends (append alloc payload s) t := by
  rcases h.append_cases alloc payload with ⟨t, c, bucket, happend, hholds, -, -⟩ | ⟨e, happend, hbenign⟩
  · exact ⟨t, c, by rwa [accepted, happend], .inl ⟨bucket, happend⟩⟩
  · exact ⟨s, buffer, by rwa [accepted, happend, List.append_nil], .inr ⟨e, happend, hbenign⟩⟩

/-- The payloads that are accepted go in: all of them, or those before one that is turned down. -/
theorem extend_ends (h : Holds s buffer log) (alloc : Allocator) (payloads : List Bytes) :
    ∃ t c, Holds t c (log ++ accepted alloc payloads s) ∧ Ends (extend alloc payloads s) t := by
  induction payloads generalizing s buffer log with
  | nil => exact ⟨s, buffer, by rwa [accepted, List.append_nil], .inl ⟨0, rfl⟩⟩
  | cons payload rest ih =>
      rcases h.append_cases alloc payload with ⟨t, c, bucket, happend, hholds, -, -⟩ | ⟨e, happend, hbenign⟩
      · obtain ⟨u, d, hrest, hends⟩ := ih hholds
        refine ⟨u, d, by rwa [accepted, happend, List.append_cons], ?_⟩
        rcases hends with ⟨n, hdone⟩ | ⟨e, hfailed, hbenign⟩
        · exact .inl ⟨n + 1, by simp only [extend_cons, happend, hdone]⟩
        · exact .inr ⟨e, by simp only [extend_cons, happend, hfailed], hbenign⟩
      · refine ⟨s, buffer, by rwa [accepted, happend, List.append_nil], .inr ⟨e, ?_, hbenign⟩⟩
        simp only [extend_cons, happend]

theorem perform (h : Holds s buffer log) (request : Request) : (request.perform s).1.Benign ∧
    Tracks (request.operation.log request.alloc s log) (request.perform s).2 := by
  rcases request with ⟨alloc, operation⟩
  cases operation with
  | append payload =>
      obtain ⟨t, c, hholds, hends⟩ := h.append_ends alloc payload
      exact hends.settle (fun _ => rfl) (.inr ⟨c, hholds⟩)
  | appendText text =>
      obtain ⟨t, c, hholds, hends⟩ := h.append_ends alloc (Utf8.encode text)
      exact hends.settle (fun _ => rfl) (.inr ⟨c, hholds⟩)
  | extend payloads =>
      obtain ⟨t, c, hholds, hends⟩ := h.extend_ends alloc payloads
      exact hends.settle (fun _ => rfl) (.inr ⟨c, hholds⟩)
  | reset clearBuffer =>
      obtain ⟨t, c, hreset, hholds⟩ := h.reset_holds clearBuffer
      have hends : Ends (reset clearBuffer s) t := .inl ⟨_, hreset⟩
      exact hends.settle (fun _ => rfl) (.inr ⟨c, hholds⟩)
  | clear capacity =>
      obtain ⟨t, c, hholds, hclear⟩ := h.clear_cases alloc capacity
      have hends : Ends (clear alloc capacity s) t := hclear.imp (fun hdone => ⟨_, hdone⟩) id
      exact hends.settle (fun _ => rfl) (.inr ⟨c, hholds⟩)
  | dispose =>
      have hends : Ends (dispose s) _ := .inl ⟨_, rfl⟩
      exact hends.settle (fun _ => rfl) (.inl (released_dispose s))
  | read reading => exact ⟨h.benign_answer reading, .inr ⟨buffer, h⟩⟩

end Holds

theorem Tracks.perform (h : Tracks log s) (request : Request) : (request.perform s).1.Benign ∧
    Tracks (request.operation.log request.alloc s log) (request.perform s).2 := by
  rcases h with hreleased | ⟨buffer, hholds⟩
  · obtain ⟨hbenign, hkept⟩ := hreleased.perform_kept request
    exact ⟨hbenign, .inl (hkept.symm ▸ hreleased)⟩
  · exact hholds.perform request

/-! ## A whole run -/

theorem Tracks.run (h : Tracks log s) (requests : List Request) :
    (∀ answer ∈ (run requests s).1, answer.Benign) ∧ Tracks (logAfter requests s log) (run requests s).2 := by
  induction requests generalizing s log with
  | nil => exact ⟨nofun, h⟩
  | cons request rest ih =>
      obtain ⟨hbenign, hnext⟩ := h.perform request
      obtain ⟨hrest, hlast⟩ := ih hnext
      refine ⟨fun answer hanswer => ?_, hlast⟩
      rcases List.mem_cons.mp hanswer with rfl | hanswer
      · exact hbenign
      · exact hrest answer hanswer

/-! ## Where it begins -/

theorem create_holds {config : Config} (h : create alloc config = .ok s) :
    Holds s ⟨Bytes.zeros config.initialCapacity, config.expansion⟩ [] := by
  obtain ⟨_, hvalid, h⟩ := bind_eq_ok.mp h
  obtain ⟨hsize, hcapacity, hexpansion⟩ := Config.validate_eq_ok.mp hvalid
  obtain ⟨buffer, hbuffer, h⟩ := bind_eq_ok.mp h
  obtain ⟨_, -, hbuffer⟩ := bind_eq_ok.mp hbuffer
  obtain ⟨_, -, hbuffer⟩ := bind_eq_ok.mp hbuffer
  obtain ⟨table, htable, h⟩ := bind_eq_ok.mp h
  obtain ⟨_, -, htable⟩ := bind_eq_ok.mp htable
  obtain ⟨_, -, htable⟩ := bind_eq_ok.mp htable
  cases hbuffer
  cases htable
  cases h
  refine holds_ofParts (Nat.pos_of_ne_zero hsize) ?_
  rw [Buffer.capacity_zeros]
  exact hcapacity

theorem ofBuffer_holds {b : Nat} (haddressable : buffer.capacity ≤ maxAllocation) (h : ofBuffer buffer b = .ok s) :
    s.bucketSize = b ∧ Holds s buffer [] := by
  obtain ⟨_, hsize, h⟩ := bind_eq_ok.mp h
  cases h
  exact ⟨rfl, holds_ofParts (Nat.pos_of_ne_zero (require_eq_ok.mp hsize)) haddressable⟩

theorem adopt_adoption {b dataLength : Nat} (haddressable : buffer.capacity ≤ maxAllocation)
    (h : adopt buffer dataLength b = .ok s) :
    Adoption (buffer.bytes.take dataLength) b buffer (adopt buffer dataLength b) := by
  obtain ⟨_, hsize, h⟩ := bind_eq_ok.mp h
  obtain ⟨_, hwithin, -⟩ := bind_eq_ok.mp h
  exact .inPlace rfl (require_eq_ok.mp hwithin) haddressable (Nat.pos_of_ne_zero (require_eq_ok.mp hsize))

theorem ofBytes_adoption {data : Bytes} {config : Config} (h : ofBytes alloc data config = .ok s) :
    Adoption data config.bucketSize ⟨data ++ Bytes.zeros (config.initialCapacity - data.length), config.expansion⟩
      (ofBytes alloc data config) := by
  obtain ⟨_, hvalid, h⟩ := bind_eq_ok.mp h
  obtain ⟨buffer, hbuffer, -⟩ := bind_eq_ok.mp h
  obtain ⟨_, -, hbuffer⟩ := bind_eq_ok.mp hbuffer
  obtain ⟨_, hgranted, -⟩ := bind_eq_ok.mp hbuffer
  exact .copy hvalid rfl hgranted

theorem Origin.builds {origin : Origin} (h : origin.build alloc = .ok s) :
    ∃ log, Framed origin.data log ∧ Holds s origin.buffer log := by
  cases origin with
  | create config => exact ⟨[], .nil, create_holds h⟩
  | ofBuffer buffer bucketSize addressable => exact ⟨[], .nil, (ofBuffer_holds addressable h).2⟩
  | adopt buffer dataLength bucketSize addressable =>
      have hadoption := adopt_adoption addressable h
      obtain ⟨log, hframed, hfits, rfl⟩ := hadoption.eq_ok_iff.mp h
      exact ⟨log, hframed, hadoption.holds hframed hfits⟩
  | ofBytes data config =>
      have hadoption := ofBytes_adoption h
      obtain ⟨log, hframed, hfits, rfl⟩ := hadoption.eq_ok_iff.mp h
      exact ⟨log, hframed, hadoption.holds hframed hfits⟩

theorem Origin.holds {origin : Origin} (h : origin.build alloc = .ok s) :
    ∃ buffer log, Framed origin.data log ∧ Holds s buffer log :=
  ⟨origin.buffer, Origin.builds h⟩

theorem Reachable.tracks (h : Reachable s) : ∃ log, Tracks log s := by
  obtain ⟨origin, alloc, first, requests, hbuild, rfl⟩ := h
  obtain ⟨buffer, log, -, hholds⟩ := Origin.holds hbuild
  have htracks : Tracks log first := .inr ⟨buffer, hholds⟩
  exact ⟨_, (htracks.run requests).2⟩

theorem Tracks.holds (h : Tracks log s) (hlive : s.isDisposed = false) : ∃ buffer, Holds s buffer log := by
  rcases h with hreleased | hholds
  · rw [hreleased.isDisposed_eq] at hlive
    cases hlive
  · exact hholds

theorem Reachable.holds (h : Reachable s) (hlive : s.isDisposed = false) : ∃ buffer log, Holds s buffer log := by
  obtain ⟨log, htracks⟩ := h.tracks
  obtain ⟨buffer, hholds⟩ := htracks.holds hlive
  exact ⟨buffer, log, hholds⟩

/-! ## What is read at its end -/

/-- What a store shows is the log: its length, its bytes, and each payload at its number. -/
structure Shows (s : Store) (log : Log) : Prop where
  count : s.frameCount = log.length
  dataEnd : s.dataEnd = (log.map fun payload => 4 + payload.length).sum
  written : s.written = .ok (log.flatMap fun payload => Prefix.encode payload.length ++ payload)
  bytes : ∃ view, s.bytes = .ok view ∧
    view.elements = log.flatMap fun payload => Prefix.encode payload.length ++ payload
  payload : ∀ i (h : i < log.length), ∃ view, s.get i = .ok view ∧ view.elements = log[i]
  outOfRange : ∀ i, log.length ≤ i → s.get i = refuse (.outOfRange i log.length)

theorem Holds.shows (h : Holds s buffer log) : Shows s log where
  count := h.count
  dataEnd := h.dataEnd.trans log.sum_sizes.symm
  written := h.written_eq
  bytes := ⟨_, h.bytes_eq, by simp [View.elements, View.whole]; rfl⟩
  payload i hi := ⟨_, by rw [h.get_eq, if_pos hi], Cursor.elements_payloadView _ hi⟩
  outOfRange i hi := by rw [h.get_eq, if_neg (Nat.not_lt.mpr hi)]

/-- In every run a store is the log that goes with the run. The log begins with the frames that the store is made of;
while the store is in use, it shows the log, and no answer ever says that a frame is corrupt. -/
theorem run_refines_log {origin : Origin} (hbuild : origin.build alloc = .ok s) :
    ∃ log, Framed origin.data log ∧ ∀ requests,
      ((run requests s).2.isDisposed = false → Shows (run requests s).2 (logAfter requests s log)) ∧
      ∀ answer ∈ (run requests s).1, ∀ offset, .refused (.corruptFrame offset) ∉ answer.failures := by
  obtain ⟨buffer, log, hframed, hholds⟩ := Origin.holds hbuild
  have htracks : Tracks log s := .inr ⟨buffer, hholds⟩
  refine ⟨log, hframed, fun requests => ?_⟩
  obtain ⟨hbenign, hend⟩ := htracks.run requests
  refine ⟨fun hlive => ?_, fun answer hanswer offset hcorrupt => hbenign answer hanswer _ hcorrupt⟩
  obtain ⟨buffer', hholds'⟩ := hend.holds hlive
  exact hholds'.shows

/-- In sixteen bytes that may not grow there is room for the first and the third payload only. -/
theorem run_refines_log_small_buffer :
    let s := ofParts ⟨Bytes.zeros 16, .fixed⟩ 1 .fresh 0 0
    let requests := [⟨fun _ => false, .append [7, 8]⟩, ⟨fun _ => false, .extend [Bytes.zeros 8, [9]]⟩,
      ⟨fun _ => false, .append [9]⟩, ⟨fun _ => false, .read (.get 5)⟩]
    ofBuffer ⟨Bytes.zeros 16, .fixed⟩ 1 = .ok s ∧ Shows (run requests s).2 [[7, 8], [9]] := by
  intro s requests
  have hbuild : Origin.build (fun _ => false) (.ofBuffer ⟨Bytes.zeros 16, .fixed⟩ 1 (by decide)) = .ok s := rfl
  obtain ⟨log, hframed, hrun⟩ := run_refines_log hbuild
  obtain rfl : log = [] := hframed.unique .nil
  have hlog : logAfter requests s [] = [[7, 8], [9]] := by decide
  exact ⟨hbuild, hlog ▸ (hrun requests).1 (by decide)⟩

end FrameLog.Store
