import FrameLog.Proofs.Command.AllOrNothing
import FrameLog.Proofs.Store.Limit
import FrameLog.Proofs.Utf8

/-!
# What the options allow to be packed

The options and the file that they name come to a capacity and to whether it may grow. How much can be packed is
decided by these two alone (`Prepared.goesBy`), wherever they come from (`policy_exact`).
-/

namespace FrameLog.Command

open Buffer (Granted limit stretched)
open Store (Holds Takes)
open Log (sizes)

variable {alloc : Allocator} {machine : Machine} {input output : String} {format : Format} {options : Options}
  {base config : Config} {values : List Json.Value} {s empty : Store} {b : Buffer} {log : Log}

/-- Packing goes by a bound. What is within it goes in and is written, and the capacity that is reported is the one
for so many bytes. Else the first frame past it is turned down, at the capacity for those before it. -/
structure GoesBy (bound : Nat) (capacity : Nat → Nat) (alloc : Allocator) (machine : Machine) (input output : String)
    (format : Format) (options : Options) (empty : Store) (log : Log) : Prop where
  fills : (∃ s, appendAll alloc 0 log empty = .ok s) ↔ log.sizes.sum ≤ bound
  within : log.sizes.sum ≤ bound → ∃ stats, stats.capacity = capacity log.sizes.sum ∧
    machine.run (pack alloc input output format options) = match machine.write output log.bytes with
      | .ok after => (.ok stats, after)
      | .error problem => (.error (.failed (.writeOutput output) (.file problem)), machine)
  past : bound < log.sizes.sum → ∃ i < log.length,
    (log.sizes.take i).sum ≤ bound ∧ bound < (log.sizes.take (i + 1)).sum ∧
      machine.run (pack alloc input output format options) = (.error (.failed (.appendFrame i) (.store
        (.outOfMemory (log.sizes.take (i + 1)).sum (capacity (log.sizes.take i).sum)))), machine)

/-! ## Filling a store -/

theorem appendAll_within (h : Holds s b []) (hgranted : Granted alloc b.expansion)
    (hfits : Table.Fits s.bucketSize log.sizes) (hwithin : log.sizes.sum ≤ limit b.expansion b.capacity) :
    ∃ t, appendAll alloc 0 log s = .ok t ∧ t.capacity = stretched b.expansion b.capacity log.sizes.sum := by
  obtain ⟨t, c, htakes, -, hholds, -, hcapacity⟩ := h.fills_within hgranted hfits hwithin
  exact ⟨t, appendAll_eq_ok.mpr htakes, hholds.capacity_eq.trans hcapacity⟩

theorem appendAll_past (h : Holds s b []) (hgranted : Granted alloc b.expansion)
    (hfits : Table.Fits s.bucketSize log.sizes) (hpast : limit b.expansion b.capacity < log.sizes.sum) :
    ∃ i < log.length, (log.sizes.take i).sum ≤ limit b.expansion b.capacity ∧
      limit b.expansion b.capacity < (log.sizes.take (i + 1)).sum ∧
      appendAll alloc 0 log s = .error (.failed (.appendFrame i) (.store (.outOfMemory (log.sizes.take (i + 1)).sum
        (stretched b.expansion b.capacity (log.sizes.take i).sum)))) := by
  obtain ⟨i, hi, hfrom, hto, t, htakes, hlast⟩ := h.stops_past hgranted hfits hpast
  have hsplit : log = log.take i ++ log[i] :: log.drop (i + 1) := by
    rw [← List.drop_eq_getElem_cons hi, List.take_append_drop]
  refine ⟨i, hi, hfrom, hto, (appendAll_eq_error h).mpr ⟨_, _, _, t, _, hsplit, htakes, hlast, ?_⟩⟩
  rw [List.length_take_of_le (Nat.le_of_lt hi), Nat.zero_add]

/-! ## Packing -/

theorem Prepared.goesBy (h : Prepared machine input format options config values)
    (hcreated : Store.create alloc config = .ok empty) (hgranted : Granted alloc config.expansion)
    (hfits : Table.Fits config.bucketSize (sizes (values.map payload))) (output : String) :
    GoesBy (limit config.expansion config.initialCapacity) (stretched config.expansion config.initialCapacity)
      alloc machine input output format options empty (values.map payload) := by
  have hholds := Store.create_holds hcreated
  have hfilled : filled alloc machine input format options = appendAll alloc 0 (values.map payload) empty := by
    rw [h.filled_eq, hcreated]
    rfl
  rw [← Store.bucketSize_of_create hcreated] at hfits
  have hwithin := appendAll_within hholds hgranted hfits
  have hpast := appendAll_past hholds hgranted hfits
  rw [Buffer.capacity_zeros] at hwithin hpast
  refine ⟨⟨?_, fun hle => ?_⟩, fun hle => ?_, fun hlt => ?_⟩
  · rintro ⟨s, hall⟩
    by_contra hlt
    obtain ⟨i, -, -, -, hstops⟩ := hpast (Nat.not_le.mp hlt)
    cases hall.symm.trans hstops
  · obtain ⟨s, hall, -⟩ := hwithin hle
    exact ⟨s, hall⟩
  · obtain ⟨s, hall, hcapacity⟩ := hwithin hle
    exact ⟨s.stats, hcapacity, Packs.run_pack ⟨config, empty, h, hcreated, appendAll_eq_ok.mp hall⟩ output⟩
  · obtain ⟨i, hi, hfrom, hto, hstops⟩ := hpast hlt
    exact ⟨i, hi, hfrom, hto, (filled_eq_error.mp (hfilled.trans hstops)).run_pack output⟩

/-- What the options come to overrides a base: what the file says, or the standard where no file is given. From a base
there is one configuration that the options override it to. It is the one that they come to, and there is none where
it is not valid, whether or not the base is. If it does not allow growing, even where a factor is given, packing goes by
the capacity, which stays as it is. If it does, and memory is granted, packing goes by what can be allocated, and the
capacity is the first one on the way up that holds the data. -/
theorem policy_exact :
    (∀ config, machine.ask options.resolve = .ok config →
      ∃ base, options.IsBase machine base ∧ options.Overrides base config) ∧
    ∀ base, options.IsBase machine base → ∃ config, options.Overrides base config ∧
      (∀ c, machine.ask options.resolve = .ok c ↔ c = config ∧ config.validate = .ok ()) ∧
      (∀ e, machine.ask options.resolve = .error e ↔
        ∃ r, config.validate = refuse r ∧ e = .failed .validateConfig (.store r)) ∧
      ∀ alloc input output format values empty, Prepared machine input format options config values →
        Store.create alloc config = .ok empty → Table.Fits config.bucketSize (sizes (values.map payload)) →
        (config.expansion.allowed = false → GoesBy config.initialCapacity (fun _ => config.initialCapacity)
          alloc machine input output format options empty (values.map payload)) ∧
        (config.expansion.allowed = true → (∀ size ≤ maxAllocation, alloc size = true) →
          GoesBy maxAllocation (fun size => growTo config.expansion.factor size config.initialCapacity)
            alloc machine input output format options empty (values.map payload)) := by
  constructor
  · intro config hresolve
    obtain ⟨base, hstart, hoverrides, -⟩ := Options.resolve_eq_ok.mp hresolve
    exact ⟨base, Options.startsFrom_iff.mp hstart, hoverrides⟩
  intro base hbase
  have hstart := Options.startsFrom_iff.mpr hbase
  refine ⟨options.merge base, Options.overrides_iff.mpr rfl, fun c => ?_, fun e => hstart.resolve_eq_error, ?_⟩
  · rw [hstart.resolve_eq_ok]
    exact and_congr_right fun hmerge => by rw [hmerge]
  · intro alloc input output format values empty hprepared hcreated hfits
    constructor
    · intro hfixed
      have hgranted : Granted alloc (options.merge base).expansion := fun hallowed => by simp [hfixed] at hallowed
      have hstretched (capacity : Nat) : stretched (options.merge base).expansion capacity = fun _ => capacity := by
        funext peak
        rw [stretched, hfixed]
        rfl
      have hgoes := hprepared.goesBy hcreated hgranted hfits output
      rwa [limit, hfixed, hstretched] at hgoes
    · intro hallowed hmemory
      have hstretched (capacity : Nat) : stretched (options.merge base).expansion capacity =
          fun peak => growTo (options.merge base).expansion.factor peak capacity := by
        funext peak
        rw [stretched, if_pos hallowed]
      have hgoes := hprepared.goesBy hcreated (fun _ => hmemory) hfits output
      rwa [limit, if_pos hallowed, hstretched] at hgoes

/-- Two frames of five bytes. Growing is forbidden by the flag although a factor is given: ten bytes hold both, and nine
only the first. A file that forbids it beside a factor of three is obeyed, and what it does not say is as by default;
but a factor among the options, here of two, allows growing again. -/
theorem policy_exact_two_frames :
    let text := "\x7b\"initial_capacity\": 8, \"expansion\": \x7b\"allowed\": false, \"factor\": 3\x7d\x7d"
    let machine : Machine :=
      { entries := [(["f"], .file [91, 55, 44, 56, 93]), (["c"], .file (Utf8.encode text.toList))] }
    let two : Binary := .finite false 8388608 (-22)
    let three : Binary := .finite false 12582912 (-22)
    let fixed (capacity : Nat) : Options := { capacity := some capacity, factor := some two, noExpand := true }
    let filed (factor : Option Binary) : Options := { config := some "c", factor := factor }
    (∃ (stats : Stats) (after : Machine), stats.capacity = 10 ∧
      machine.run (pack (fun _ => true) "f" "g" .json (fixed 10)) = (.ok stats, after)) ∧
    machine.run (pack (fun _ => true) "f" "g" .json (fixed 9)) =
      (.error (.failed (.appendFrame 1) (.store (.outOfMemory 10 9))), machine) ∧
    machine.ask (filed none).resolve = .ok ⟨64, 8, ⟨false, three⟩, 0⟩ ∧
    machine.run (pack (fun _ => true) "f" "g" .json (filed none)) =
      (.error (.failed (.appendFrame 1) (.store (.outOfMemory 10 8))), machine) ∧
    ∃ (stats : Stats) (after : Machine), stats.capacity = 16 ∧
      machine.run (pack (fun _ => true) "f" "g" .json (filed (some two))) = (.ok stats, after) := by
  intro text machine two three fixed filed
  have hlookup (bytes : Bytes) :
      let machine : Machine := { entries := [(["f"], .file [91, 55, 44, 56, 93]), (["c"], .file bytes)] }
      machine.source "f" = .ok [91, 55, 44, 56, 93] ∧ machine.read "c" = .ok bytes ∧
        ∃ after, machine.write "g" (Log.bytes [[55], [56]]) = .ok after := by
    intro machine
    refine ⟨by cbv, by cbv, machine.withEntry ["g"] (.file (Log.bytes [[55], [56]])), by cbv⟩
  obtain ⟨hsource, hfound, after, hwrite⟩ := hlookup (Utf8.encode text.toList)
  have hdecoded : Utf8.decode [91, 55, 44, 56, 93] = .ok "[7,8]".toList := by cbv
  have hvalues : parsePayloads "[7,8]".toList .json = .ok [.number (.natural 7), .number (.natural 8)] := by cbv
  have hparsed : Json.readAll (Json.readRecord Config.fields {}) text.toList =
      .ok ⟨none, some 8, some ⟨false, three⟩, none⟩ := by
    simp only [text]
    cbv
  have hstandard (capacity : Nat) : (fixed capacity).IsBase machine Options.standard := .standard rfl
  have hfile (factor : Option Binary) : (filed factor).IsBase machine ⟨64, 8, ⟨false, three⟩, 0⟩ :=
    Options.startsFrom_iff.mp (.file rfl hfound (Utf8.decode_encode _) hparsed)
  have hpolicy {options : Options} {base : Config} {empty : Store} (hbase : options.IsBase machine base)
      (hvalid : (options.merge base).validate = .ok ())
      (hcreated : Store.create (fun _ => true) (options.merge base) = .ok empty)
      (hsize : (options.merge base).bucketSize = 64) :
      machine.ask options.resolve = .ok (options.merge base) ∧
        ((options.merge base).expansion.allowed = false → GoesBy (options.merge base).initialCapacity
          (fun _ => (options.merge base).initialCapacity) (fun _ => true) machine "f" "g" .json options empty
          [[55], [56]]) ∧
        ((options.merge base).expansion.allowed = true → GoesBy maxAllocation
          (fun size => growTo (options.merge base).expansion.factor size (options.merge base).initialCapacity)
          (fun _ => true) machine "f" "g" .json options empty [[55], [56]]) := by
    obtain ⟨config, hoverrides, hresolve, -, hpack⟩ := policy_exact.2 base hbase
    obtain rfl := Options.overrides_iff.mp hoverrides
    have hprepared : Prepared machine "f" .json options (options.merge base)
        [.number (.natural 7), .number (.natural 8)] :=
      ⟨⟨base, Options.startsFrom_iff.mpr hbase, hoverrides, hvalid⟩, _, _, hsource, hdecoded,
        parsePayloads_eq_ok.mp hvalues⟩
    obtain ⟨hfixed, hgrows⟩ := hpack (fun _ => true) "f" "g" .json _ _ hprepared hcreated
      (hsize ▸ Table.fits_of_sum_le (by decide))
    exact ⟨(hresolve _).mpr ⟨rfl, hvalid⟩, hfixed, fun hallowed => hgrows hallowed fun _ _ => rfl⟩
  have hsecond {capacity i : Nat} (hcapacity : 5 ≤ capacity) (hi : i < 2)
      (hpast : capacity < ((Log.sizes [[55], [56]]).take (i + 1)).sum) : i = 1 := by
    obtain rfl | rfl : i = 0 ∨ i = 1 := by omega
    · exact absurd hpast (Nat.not_lt.mpr hcapacity)
    · rfl
  have hfixed : Store.create (fun _ => true) ((filed none).merge ⟨64, 8, ⟨false, three⟩, 0⟩) =
    .ok (.ofParts ⟨Bytes.zeros 8, ⟨false, three⟩⟩ 64 .fresh 0 0) := by cbv
  refine ⟨?_, ?_, ?_, ?_, ?_⟩
  · have hcreated : Store.create (fun _ => true) ((fixed 10).merge Options.standard) =
      .ok (.ofParts ⟨Bytes.zeros 10, ⟨false, two⟩⟩ 64 .fresh 0 0) := by cbv
    obtain ⟨-, hgoes, -⟩ := hpolicy (hstandard 10) (by cbv) hcreated rfl
    obtain ⟨stats, hcapacity, hrun⟩ := (hgoes rfl).within (by decide)
    rw [hwrite] at hrun
    exact ⟨stats, _, hcapacity, hrun⟩
  · have hcreated : Store.create (fun _ => true) ((fixed 9).merge Options.standard) =
      .ok (.ofParts ⟨Bytes.zeros 9, ⟨false, two⟩⟩ 64 .fresh 0 0) := by cbv
    obtain ⟨-, hgoes, -⟩ := hpolicy (hstandard 9) (by cbv) hcreated rfl
    obtain ⟨i, hi, -, hto, hrun⟩ := (hgoes rfl).past (by decide)
    obtain rfl := hsecond (by decide) hi hto
    exact hrun
  · exact (hpolicy (hfile none) (by cbv) hfixed rfl).1
  · obtain ⟨-, hgoes, -⟩ := hpolicy (hfile none) (by cbv) hfixed rfl
    obtain ⟨i, hi, -, hto, hrun⟩ := (hgoes rfl).past (by decide)
    obtain rfl := hsecond (by decide) hi hto
    exact hrun
  · have hcreated : Store.create (fun _ => true) ((filed (some two)).merge ⟨64, 8, ⟨false, three⟩, 0⟩) =
      .ok (.ofParts ⟨Bytes.zeros 8, ⟨true, two⟩⟩ 64 .fresh 0 0) := by cbv
    obtain ⟨-, -, hgoes⟩ := hpolicy (hfile (some two)) (by cbv) hcreated rfl
    obtain ⟨stats, hcapacity, hrun⟩ := (hgoes rfl).within (by decide)
    have hgrown : growTo two 10 8 = 16 := by
      have hstep : growStep two 8 = 16 := by decide +kernel
      rw [growTo, if_pos (by decide), hstep, growTo, if_neg (by decide)]
    rw [hwrite] at hrun
    exact ⟨stats, _, hcapacity.trans hgrown, hrun⟩

end FrameLog.Command
