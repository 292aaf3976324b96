import FrameLog.Proofs.Command.RoundTrip
import FrameLog.Proofs.Store.Creation

/-!
# Getting frames

Frames of a file are printed and answered with in order, each under its own number; frames that the file does not have
are turned down, and nothing is printed (`get_exact`). Both hold as long as room for the answers is granted, which is
asked for before it is looked how many frames there are (`get_exact_largest_count`).
-/

namespace FrameLog.Command

open Log
open Store (Holds)

variable {alloc : Allocator} {machine : Machine} {path : String} {data : Bytes} {b index count : Nat} {hex : Bool}
  {s : Store} {buffer : Buffer} {log : Log}

theorem reserveAnswers_of_not_room (h : ¬ RoomForAnswers alloc count) :
    ∃ f : Fault, f.OfRoom ∧ reserveAnswers alloc count = .error (.fault f) := by
  rw [reserveAnswers]
  by_cases hsize : maxAllocation < count * answerSize
  · exact ⟨.capacityOverflow, .inl rfl, if_pos hsize⟩
  · have hdenied : (count ≠ 0 && !alloc (count * answerSize)) = true := by
      have hnot := fun hroom => h ⟨Nat.not_lt.mp hsize, hroom⟩
      simpa using hnot
    exact ⟨.allocationFailed, .inr rfl, by rw [if_neg hsize, if_pos hdenied]⟩

/-- Room for answers of which there is a frame each is no more than six times the file. -/
theorem answers_size_le (h : Framed data log) (hcount : count ≤ log.length) : count * answerSize ≤ 6 * data.length := by
  have hlength := length_bytes log
  rw [← h.eq_bytes, Prefix.size] at hlength
  rw [answerSize]
  omega

/-- Why frames are turned down that the file does not have. -/
def noSuchFrames (index count length : Nat) : Stop :=
  .failed (.selectFrames index (Word.saturatingAdd index count) length)
    (.store (.outOfRange (Word.saturatingAdd index count) length))

theorem run_get_outside (h : Holds s buffer log) (hsource : machine.ask (readSource path) = .ok data)
    (hrebuild : rebuild alloc path b data = .ok s) (hreserve : reserveAnswers alloc count = .ok ())
    (houtside : log.length < index + count) :
    machine.run (get alloc path b index count hex) = (.error (noSuchFrames index count log.length), machine) := by
  -- Where the sum does not fit a word, its end is the largest one, and that is past the last frame too.
  have hpast : log.length < Word.saturatingAdd index count := Nat.lt_min.mpr ⟨houtside, h.length_lt_limit⟩
  rw [run_get hsource hrebuild, hreserve, Machine.proceed_ok, h.iterate_eq, if_pos hpast, h.count]
  simp [atStage, get.lines, Machine.printed, noSuchFrames]

/-- Of a file that a store is made of, frames are got as the log has them, where room for the answers is granted:
those that are there, each with its line, or none. Where it is not granted, that is a fault, whatever frames there are;
getting frames comes to no other. For frames that are there, the file bounds the room. -/
theorem get_exact (hsource : machine.ask (readSource path) = .ok data)
    (haccepted : Store.ofBytes alloc data { bucketSize := b } = .ok s) :
    ∃ log, Framed data log ∧ s.frameCount = log.length ∧ ∀ index count hex,
      let texts := log.map (render hex)
      (RoomForAnswers alloc count →
        (index + count ≤ log.length → machine.run (get alloc path b index count hex) =
          (.ok ((texts.drop index).take count),
            machine.printed ((List.range' index count).flatMap fun i => frameLine i (texts.getD i [])))) ∧
        (log.length < index + count → machine.run (get alloc path b index count hex) =
          (.error (noSuchFrames index count log.length), machine))) ∧
      (¬ RoomForAnswers alloc count → ∃ fault : Fault, fault.OfRoom ∧
        machine.run (get alloc path b index count hex) = (.error (.fault fault), machine)) ∧
      (index + count ≤ log.length → count * answerSize ≤ 6 * data.length) := by
  have hadoption := Store.ofBytes_adoption haccepted
  obtain ⟨log, hframed, hfits, rfl⟩ := hadoption.eq_ok_iff.mp haccepted
  have hholds := hadoption.holds hframed hfits
  have hrebuild : rebuild alloc path b data = .ok _ := atStage_eq_ok.mpr haccepted
  refine ⟨log, hframed, rfl, fun index count hex => ⟨fun hroom => ⟨fun hwithin => ?_, ?_⟩, fun hroom => ?_,
    fun hwithin => answers_size_le hframed (Nat.le_of_add_left_le hwithin)⟩⟩
  · have hlength : index + count ≤ (log.map (render hex)).length := by rwa [List.length_map]
    obtain rfl := hframed.eq_bytes
    exact showsFrames hholds hsource hrebuild hex index count hlength hroom
  · exact run_get_outside hholds hsource hrebuild (reserveAnswers_of_room hroom)
  · obtain ⟨fault, hfault, hreserve⟩ := reserveAnswers_of_not_room hroom
    exact ⟨fault, hfault, by rw [run_get hsource hrebuild, hreserve]; rfl⟩

/-- A file of two frames gives both, the second one also in hexadecimal digits, and none from far behind them. -/
theorem get_exact_two_frames :
    let machine : Machine := { entries := [(["f"], .file [1, 0, 0, 0, 55, 2, 0, 0, 0, 195, 169])] }
    machine.run (get (fun _ => true) "f" 4 0 2 false) =
        (.ok [['7'], ['é']], machine.printed "Frame 0: 7\nFrame 1: é\n".toList) ∧
      machine.run (get (fun _ => true) "f" 4 1 1 true) =
        (.ok [['c', '3', 'a', '9']], machine.printed "Frame 1: c3a9\n".toList) ∧
      machine.run (get (fun _ => true) "f" 4 Word.limit 1 true) = (.error (noSuchFrames Word.limit 1 2), machine) := by
  intro machine
  have hsource : machine.ask (readSource "f") = .ok [1, 0, 0, 0, 55, 2, 0, 0, 0, 195, 169] :=
    Machine.ask_readSource (by decide) (by cbv)
  have hframed : Framed [1, 0, 0, 0, 55, 2, 0, 0, 0, 195, 169] [[55], [195, 169]] := framed_iff.mpr (by decide)
  obtain ⟨s, buffer, hrebuild, -⟩ := @rebuild_holds (fun _ => true) 4 [[55], [195, 169]] (by decide)
    (Table.fits_of_sum_le (by decide)) (by decide) rfl "f"
  rw [← hframed.eq_bytes] at hrebuild
  obtain ⟨log, hlog, -, hget⟩ := get_exact hsource (atStage_eq_ok.mp hrebuild)
  obtain rfl := hlog.unique hframed
  have htwo := ((hget 0 2 false).1 ⟨by decide, .inr rfl⟩).1 (by decide)
  have hsecond := ((hget 1 1 true).1 ⟨by decide, .inr rfl⟩).1 (by decide)
  have hpast := ((hget Word.limit 1 true).1 ⟨by decide, .inr rfl⟩).2 (by decide)
  have htexts : [[55], [195, 169]].map (render false) = [['7'], ['é']] := by cbv
  have hdigits : [[55], [195, 169]].map (render true) = [['3', '7'], ['c', '3', 'a', '9']] := by cbv
  rw [htexts] at htwo
  rw [hdigits] at hsecond
  exact ⟨htwo, hsecond, hpast⟩

/-- More answers than can be addressed are asked for of one frame. That there are not so many is not found out. -/
theorem get_exact_largest_count :
    let machine : Machine := { entries := [(["f"], .file [1, 0, 0, 0, 55])] }
    (∃ s, Store.ofBytes (fun _ => true) [1, 0, 0, 0, 55] { bucketSize := 4 } = .ok s ∧ s.frameCount = 1) ∧
      machine.run (get (fun _ => true) "f" 4 0 Word.limit false) = (.error (.fault .capacityOverflow), machine) ∧
      machine.run (get (fun _ => true) "f" 4 0 Word.limit false) ≠
        (.error (noSuchFrames 0 Word.limit 1), machine) := by
  intro machine
  have hsource : machine.ask (readSource "f") = .ok [1, 0, 0, 0, 55] := Machine.ask_readSource (by decide) (by cbv)
  have hframed : Framed [1, 0, 0, 0, 55] [[55]] := framed_iff.mpr (by decide)
  obtain ⟨s, buffer, hrebuild, hholds, -⟩ := @rebuild_holds (fun _ => true) 4 [[55]] (by decide)
    (Table.fits_of_sum_le (by decide)) (by decide) rfl "f"
  rw [← hframed.eq_bytes] at hrebuild
  have hrun := run_get hsource hrebuild 0 Word.limit false
  have hreserve : reserveAnswers (fun _ => true) Word.limit = .error (.fault .capacityOverflow) := rfl
  rw [hreserve] at hrun
  refine ⟨⟨s, atStage_eq_ok.mp hrebuild, hholds.count⟩, hrun, ?_⟩
  rw [hrun]
  intro hrefused
  cases hrefused

end FrameLog.Command
