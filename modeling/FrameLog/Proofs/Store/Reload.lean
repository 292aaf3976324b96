import FrameLog.Proofs.Store.Refinement

/-!
# Saving and loading again

A store made of the bytes of another one goes on as that one does: appending to either gives the same answers, and
what they hold stays the same (`reload_agrees`).
-/

namespace FrameLog.Store

open Log

variable {s t : Store} {buffer buffer' : Buffer} {log : Log} {alloc : Allocator} {data : Bytes} {config : Config}

/-- Requests to append payloads one by one, each with an allocator of its own. -/
def appends (payloads : List (Allocator × Bytes)) : List Request :=
  payloads.map fun x => ⟨x.1, .append x.2⟩

/-- The stores hold the same and have the same table. -/
structure Alike (s t : Store) : Prop where
  count : s.frameCount = t.frameCount
  dataEnd : s.dataEnd = t.dataEnd
  buckets : s.buckets = t.buckets
  written : ∃ data, s.written = .ok data ∧ t.written = .ok data

/-- A copy of the bytes can be made a store with buckets of the given size. -/
structure Loads (alloc : Allocator) (data : Bytes) (config : Config) (bucketSize : Nat) : Prop where
  valid : config.validate = .ok ()
  size : config.bucketSize = bucketSize
  granted : Buffer.request alloc 0 (max config.initialCapacity data.length) = .ok ()

/-- Whatever is appended to both stores meets the same answers and leaves them alike, as long as neither runs out of
room. -/
def Agree (s t : Store) : Prop :=
  ∀ qs qs' : List (Allocator × Bytes), qs.map Prod.snd = qs'.map Prod.snd →
    (∀ answer ∈ (run (appends qs) s).1, answer.starved = false) →
    (∀ answer ∈ (run (appends qs') t).1, answer.starved = false) →
    (run (appends qs) s).1 = (run (appends qs') t).1 ∧ Alike (run (appends qs) s).2 (run (appends qs') t).2

/-- Behind `ps`, whatever more goes in leaves the store as loading all the payloads at once does. -/
def Continues (ps : List (Allocator × Bytes)) (s : Store) : Prop :=
  ∀ qs, (∀ answer ∈ (run (appends qs) s).1, answer.succeeds) → ∀ alloc config,
    Loads alloc (Log.bytes ((ps ++ qs).map Prod.snd)) config s.bucketSize →
    ∃ whole, ofBytes alloc (Log.bytes ((ps ++ qs).map Prod.snd)) config = .ok whole ∧
      Alike (run (appends qs) s).2 whole

theorem Holds.alike (h : Holds s buffer log) (h' : Holds t buffer' log) (hsize : s.bucketSize = t.bucketSize) :
    Alike s t where
  count := h.count.trans h'.count.symm
  dataEnd := h.dataEnd.trans h'.dataEnd.symm
  buckets := by rw [h.buckets, h'.buckets, hsize]
  written := ⟨log.bytes, h.written_eq, h'.written_eq⟩

/-! ## Loading -/

theorem Holds.reload (h : Holds s buffer log) (hload : Loads alloc log.bytes config s.bucketSize) :
    ∃ t c, ofBytes alloc log.bytes config = .ok t ∧ Holds t c log ∧ t.bucketSize = s.bucketSize := by
  have hadoption := Adoption.copy hload.valid hload.size hload.granted
  exact ⟨_, _, hadoption.eq_ok_iff.mpr ⟨log, h.framed, h.fits, rfl⟩, hadoption.holds h.framed h.fits, rfl⟩

theorem written_of_ofBytes (h : ofBytes alloc data config = .ok s) : s.written = .ok data := by
  have hadoption := ofBytes_adoption h
  obtain ⟨log, hframed, hfits, rfl⟩ := hadoption.eq_ok_iff.mp h
  rw [(hadoption.holds hframed hfits).written_eq, hframed.eq_bytes]

/-! ## Appending where there is room -/

/-- The answer to one more payload, and the log with it, where there is room. -/
def verdict (bucketSize : Nat) (log : Log) (payload : Bytes) : Answer × Log :=
  match tooLarge bucketSize log payload.length with
  | some size => ({ outcome := refuse (.frameTooLarge size) }, log)
  | none =>
    ({ outcome := (Table.partition bucketSize (Log.sizes (log ++ [payload]))).last.map .bucket }, log ++ [payload])

def verdicts (bucketSize : Nat) : Log → List Bytes → List Answer × Log
  | log, [] => ([], log)
  | log, payload :: rest =>
    let (answer, next) := verdict bucketSize log payload
    let (answers, last) := verdicts bucketSize next rest
    (answer :: answers, last)

theorem Holds.append_verdict (h : Holds s buffer log) (alloc : Allocator) (payload : Bytes)
    (hroom : (Request.perform ⟨alloc, .append payload⟩ s).1.starved = false) :
    (Request.perform ⟨alloc, .append payload⟩ s).1 = (verdict s.bucketSize log payload).1 ∧
      (Request.perform ⟨alloc, .append payload⟩ s).2.bucketSize = s.bucketSize ∧
      ∃ c, Holds (Request.perform ⟨alloc, .append payload⟩ s).2 c (verdict s.bucketSize log payload).2 := by
  cases hlarge : tooLarge s.bucketSize log payload.length with
  | some size =>
      have happend : append alloc payload s = _ := h.append_tooLarge hlarge
      simp only [Request.perform, Operation.perform, happend, verdict, hlarge]
      exact ⟨rfl, rfl, buffer, h⟩
  | none =>
      rcases h.append_fits alloc hlarge with ⟨t, c, bucket, happend, hholds, hsize, hlast⟩ | ⟨required, hfull⟩
      · rw [hholds.buckets, hsize] at hlast
        simp only [Request.perform, Operation.perform, happend, verdict, hlarge, hlast]
        exact ⟨rfl, hsize, c, hholds⟩
      · simp only [Request.perform, Operation.perform, hfull] at hroom
        cases hroom

/-- As long as there is room, what appending answers depends on the log and the bucket size only. -/
theorem Holds.run_appends (h : Holds s buffer log) {ps : List (Allocator × Bytes)}
    (hroom : ∀ answer ∈ (run (appends ps) s).1, answer.starved = false) :
    (run (appends ps) s).1 = (verdicts s.bucketSize log (ps.map Prod.snd)).1 ∧
      (run (appends ps) s).2.bucketSize = s.bucketSize ∧
      ∃ c, Holds (run (appends ps) s).2 c (verdicts s.bucketSize log (ps.map Prod.snd)).2 := by
  induction ps generalizing s buffer log with
  | nil => exact ⟨rfl, rfl, buffer, h⟩
  | cons p rest ih =>
      obtain ⟨hanswer, hsize, c, hholds⟩ := h.append_verdict p.1 p.2 (hroom _ (List.mem_cons_self ..))
      obtain ⟨hanswers, hsize', hlast⟩ := ih hholds fun answer hmem => hroom answer (List.mem_cons_of_mem _ hmem)
      rw [hsize] at hanswers hsize' hlast
      exact ⟨congrArg₂ List.cons hanswer hanswers, hsize', hlast⟩

theorem verdicts_succeed {b : Nat} {payloads : List Bytes}
    (hall : ∀ answer ∈ (verdicts b log payloads).1, answer.succeeds) :
    (verdicts b log payloads).2 = log ++ payloads := by
  induction payloads generalizing log with
  | nil => exact (List.append_nil log).symm
  | cons payload rest ih =>
      have hfirst : (verdict b log payload).2 = log ++ [payload] := by
        have hanswer : (verdict b log payload).1.succeeds := hall _ (List.mem_cons_self ..)
        unfold verdict at hanswer ⊢
        cases hlarge : tooLarge b log payload.length with
        | some size =>
            rw [hlarge] at hanswer
            cases hanswer
        | none => rfl
      have hrest := ih fun answer hmem => hall answer (List.mem_cons_of_mem _ hmem)
      rw [List.append_cons, ← hfirst]
      exact hrest

theorem Answer.starved_of_succeeds {answer : Answer} (h : answer.succeeds) : answer.starved = false := by
  unfold succeeds at h
  unfold starved
  cases houtcome : answer.outcome with
  | ok value => rfl
  | error e =>
      rw [houtcome] at h
      cases h

theorem Holds.agree (h : Holds s buffer log) (h' : Holds t buffer' log) (hsize : s.bucketSize = t.bucketSize) :
    Agree s t := by
  intro qs qs' hsame hroom hroom'
  obtain ⟨hanswers, hend, c, hlast⟩ := h.run_appends hroom
  obtain ⟨hanswers', hend', c', hlast'⟩ := h'.run_appends hroom'
  rw [← hsize, ← hsame] at hanswers' hlast'
  refine ⟨hanswers.trans hanswers'.symm, hlast.alike hlast' ?_⟩
  rw [hend, hend', hsize]

theorem Holds.run_succeeds (h : Holds s buffer log) {ps : List (Allocator × Bytes)}
    (hall : ∀ answer ∈ (run (appends ps) s).1, answer.succeeds) :
    (run (appends ps) s).2.bucketSize = s.bucketSize ∧
      ∃ c, Holds (run (appends ps) s).2 c (log ++ ps.map Prod.snd) := by
  obtain ⟨hanswers, hsize, c, hlast⟩ := h.run_appends fun answer hmem => Answer.starved_of_succeeds (hall answer hmem)
  rw [verdicts_succeed (hanswers ▸ hall)] at hlast
  exact ⟨hsize, c, hlast⟩

theorem Holds.continues {ps : List (Allocator × Bytes)} (h : Holds s buffer (ps.map Prod.snd)) : Continues ps s := by
  intro qs hall alloc config hload
  obtain ⟨hsize, c, hlast⟩ := h.run_succeeds hall
  rw [← List.map_append] at hlast
  rw [← hsize] at hload
  obtain ⟨whole, d, hbuild, hwhole, hsize'⟩ := hlast.reload hload
  exact ⟨whole, hbuild, hlast.alike hwhole hsize'.symm⟩

/-- A store is saved and loaded as it is, and goes on as it would have; and bytes that are loaded are the bytes that
are saved. -/
theorem reload_agrees :
    (∀ first ps, Reachable first → first.isDisposed = false → first.frameCount = 0 →
      (∀ answer ∈ (run (appends ps) first).1, answer.succeeds) →
      ∃ s saved, (run (appends ps) first).2 = s ∧ s.bucketSize = first.bucketSize ∧ s.written = .ok saved ∧
        ∀ alloc config, Loads alloc saved config s.bucketSize →
          ∃ loaded, ofBytes alloc saved config = .ok loaded ∧ Alike s loaded ∧ Agree s loaded ∧ Continues ps s ∧
            Continues ps loaded) ∧
    ∀ alloc data config s, ofBytes alloc data config = .ok s → s.written = .ok data := by
  refine ⟨?_, fun alloc data config s => written_of_ofBytes⟩
  intro first ps hreachable hlive hempty hall
  obtain ⟨log, htracks⟩ := hreachable.tracks
  obtain ⟨buffer, hfirst⟩ := htracks.holds hlive
  obtain rfl : log = [] := List.length_eq_zero_iff.mp (hfirst.count.symm.trans hempty)
  obtain ⟨hsize, c, hsaved⟩ := hfirst.run_succeeds hall
  rw [List.nil_append] at hsaved
  refine ⟨_, _, rfl, hsize, hsaved.written_eq, fun alloc config hload => ?_⟩
  obtain ⟨loaded, d, hbuild, hloaded, hsize'⟩ := hsaved.reload hload
  exact ⟨loaded, hbuild, hsaved.alike hloaded hsize'.symm, hsaved.agree hloaded hsize'.symm, hsaved.continues,
    hloaded.continues⟩

/-- Two frames are saved and loaded into a larger buffer; a third opens a bucket in both stores. -/
theorem reload_agrees_two_frames :
    let first := ofParts ⟨Bytes.zeros 16, .fixed⟩ 2 .fresh 0 0
    let s := (run (appends [(fun _ => false, [7]), (fun _ => false, [])]) first).2
    let third : List (Allocator × Bytes) := [(fun _ => false, [8, 9])]
    ∃ loaded, ofBytes (fun _ => true) [1, 0, 0, 0, 7, 0, 0, 0, 0] { bucketSize := 2, initialCapacity := 64 } =
        .ok loaded ∧ Alike s loaded ∧ (run (appends third) s).1 = (run (appends third) loaded).1 ∧
      Alike (run (appends third) s).2 (run (appends third) loaded).2 := by
  intro first s third
  have hbuild : Origin.build (fun _ => false) (.ofBuffer ⟨Bytes.zeros 16, .fixed⟩ 2 (by decide)) = .ok first := rfl
  have hreachable : Reachable first := ⟨_, _, first, [], hbuild, rfl⟩
  obtain ⟨s', saved, rfl, hsize, hwritten, hload⟩ := reload_agrees.1 first
    [(fun _ => false, [7]), (fun _ => false, [])] hreachable rfl rfl (by decide +kernel)
  have hsaved : (run (appends [(fun _ => false, [7]), (fun _ => false, [])]) first).2.written =
      .ok [1, 0, 0, 0, 7, 0, 0, 0, 0] := by decide +kernel
  rw [hsaved] at hwritten
  cases hwritten
  have hvalid : Config.validate { bucketSize := 2, initialCapacity := 64 } = .ok () := by decide +kernel
  have hgranted : Buffer.request (fun _ => true) 0 64 = .ok () := by decide +kernel
  obtain ⟨loaded, hloaded, halike, hagree, -⟩ := hload _ _ ⟨hvalid, hsize.symm, hgranted⟩
  -- The store that is loaded is known, so that what it answers can be computed.
  have hframed : Framed [1, 0, 0, 0, 7, 0, 0, 0, 0] [[7], []] := framed_iff.mpr (by decide)
  have hfits : Table.Fits 2 (Log.sizes [[7], []]) := Table.fits_of_sum_le (by decide)
  have hknown := (Adoption.copy hvalid rfl hgranted).eq_ok_iff.mpr ⟨_, hframed, hfits, rfl⟩
  cases hloaded.symm.trans hknown
  exact ⟨_, hknown, halike, hagree third third rfl (by decide +kernel) (by decide +kernel)⟩

end FrameLog.Store
