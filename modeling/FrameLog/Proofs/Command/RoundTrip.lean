import FrameLog.Command.Get
import FrameLog.Proofs.Command.Pack
import FrameLog.Proofs.Json.Written
import FrameLog.Proofs.Store.Index
import FrameLog.Proofs.Utf8

/-!
# Packing and reading back

A file of frames is inspected and read in buckets of any size in which the frames fit, whoever wrote it
(`showsSummary`, `showsFrames`). A report is read back (`readAll_reportJson`), and so are hexadecimal digits
(`ofHex?_hex`). Packing writes such a file, and its frames are the texts that went in (`pack_lossless`).
-/

namespace FrameLog.Command

open Log
open Store (Adoption Holds)

variable {alloc : Allocator} {machine after : Machine} {path input output : String} {b : Nat} {s : Store}
  {buffer : Buffer} {log : Log} {average : Binary} {stats : Stats} {format : Format} {options : Options}
  {data : Bytes} {text : List Char} {values : List Json.Value} {texts : List (List Char)} {index count : Nat}

/-- What is to be said in words of a file of these frames: their number and length, and each of the buckets. -/
def summaryLines (b : Nat) (log : Log) (buckets : Table) : List String :=
  let payloads := (log.map List.length).sum
  let mean : Binary :=
    if log.length = 0 then .zero .double else .div .double (.ofNat .double payloads) (.ofNat .double log.length)
  ["", "=== Store Summary ===",
    s!"Frames:            {log.length}",
    s!"Buckets:           {buckets.length} ({b} frames each)",
    s!"Data length:       {log.bytes.length} bytes",
    s!"Average payload:   {String.ofList (Decimal.tenths mean)} bytes",
    "", "=== Buckets ==="] ++
  (buckets.zipIdx.map fun (bucket, i) => s!"Bucket {i} @ offset {bucket.offset}: {bucket.totalLength} bytes") ++
  ["", s!"✓ Index rebuilt from {log.bytes.length} bytes"]

/-- What is to be said as a JSON value, with the fields in the order of their names. -/
def summaryValue (stats : Stats) (buckets : Table) : Json.Value :=
  let number (n : Nat) : Json.Value := .number (.natural n)
  .object
    [("buckets", .array (buckets.map fun bucket =>
        .object [("offset", number bucket.offset), ("total_length", number bucket.totalLength)])),
      ("stats", .object [("bucket_size", number stats.bucketSize), ("buckets", number stats.buckets),
        ("capacity", number stats.capacity), ("data_len", number stats.dataLength), ("frames", number stats.frames)])]

/-- Inspecting the file answers with the numbers of the log and prints them, and the buckets that its frames make: as
lines, or as a JSON text that is read back as the list of the buckets and the numbers. -/
def ShowsSummary (alloc : Allocator) (machine : Machine) (path : String) (b : Nat) (log : Log) : Prop :=
  ∃ buckets : Table, buckets.Tiles b log.sizes ∧
    let stats : Stats :=
      ⟨log.length, max 1 ((log.length + b - 1) / b), b, log.bytes.length, max 4096 log.bytes.length⟩
    machine.run (inspect alloc path b false) = (.ok stats, machine.printed
      ((summaryLines b log buckets).flatMap fun line => line.toList ++ ['\n'])) ∧
    ∃ report, machine.run (inspect alloc path b true) = (.ok stats, machine.printed report) ∧
      (b ≤ Word.limit →
        Json.readAll (Json.readValue Json.maxLevels) report = .ok (summaryValue stats buckets))

/-- Room for so many answers is granted. -/
def RoomForAnswers (alloc : Allocator) (count : Nat) : Prop :=
  count * answerSize ≤ maxAllocation ∧ (count = 0 ∨ alloc (count * answerSize))

/-- Getting any frames of the file answers with their texts and prints each on a line under its number, as long as room
for the answers is granted. -/
def ShowsFrames (alloc : Allocator) (machine : Machine) (path : String) (b : Nat) (hex : Bool)
    (texts : List (List Char)) : Prop :=
  ∀ index count, index + count ≤ texts.length → RoomForAnswers alloc count →
    machine.run (get alloc path b index count hex) = (.ok ((texts.drop index).take count), machine.printed
      ((List.range' index count).flatMap fun i => s!"Frame {i}: ".toList ++ texts.getD i [] ++ ['\n']))

/-! ## The store that the commands build -/

theorem rebuild_holds (hb : 0 < b) (hfits : Table.Fits b log.sizes) (haddressable : log.bytes.length ≤ maxAllocation)
    (hgranted : alloc (max 4096 log.bytes.length)) (path : String) :
    ∃ s buffer, rebuild alloc path b log.bytes = .ok s ∧ Holds s buffer log ∧ s.bucketSize = b ∧
      s.capacity = max 4096 log.bytes.length := by
  have hframed : Framed log.bytes log := framed_iff.mpr ⟨rfl, Store.short_of_fits hb hfits⟩
  have hfixed : Expansion.fixed.validate = .ok () := by decide +kernel
  have hvalid : Config.validate { bucketSize := b } = .ok () :=
    Config.validate_eq_ok.mpr ⟨Nat.ne_of_gt hb, show 4096 ≤ maxAllocation by decide, hfixed⟩
  have hsize : max 4096 log.bytes.length ≤ maxAllocation := Nat.max_le.mpr ⟨by decide, haddressable⟩
  have hadoption := Adoption.copy hvalid rfl (Buffer.request_eq_ok.mpr (.inr ⟨hsize, hgranted⟩))
  refine ⟨_, _, ?_, hadoption.holds hframed hfits, rfl, ?_⟩
  · exact atStage_eq_ok.mpr (hadoption.eq_ok_iff.mpr ⟨log, hframed, hfits, rfl⟩)
  · show (log.bytes ++ Bytes.zeros (4096 - log.bytes.length)).length = _
    rw [List.length_append, Bytes.zeros, List.length_replicate]
    omega

/-! ## Inspecting -/

theorem run_inspect_json (hsource : machine.ask (readSource path) = .ok log.bytes)
    (hrebuild : rebuild alloc path b log.bytes = .ok s) :
    machine.run (inspect alloc path b true) = (.ok s.stats, machine.printed (reportJson s)) := by
  rw [inspect, (Reads.readSource path).run_bind, hsource, Machine.proceed_ok, Machine.run_lift_bind, hrebuild,
    Machine.proceed_ok]
  simp only [↓reduceIte, Machine.run_bind, Machine.run_print, Machine.run_pure]

theorem run_inspect_text (hsource : machine.ask (readSource path) = .ok log.bytes)
    (hrebuild : rebuild alloc path b log.bytes = .ok s) (haverage : s.stats.averagePayload = .ok average) :
    machine.run (inspect alloc path b false) =
      (.ok s.stats, machine.printed (unlines (reportLines s average log.bytes.length))) := by
  rw [inspect, (Reads.readSource path).run_bind, hsource, Machine.proceed_ok, Machine.run_lift_bind, hrebuild,
    Machine.proceed_ok]
  simp only [Bool.false_eq_true, ↓reduceIte, haverage, unfailing, atStage, Machine.run_bind, Machine.run_lift,
    Machine.run_print, Machine.run_pure]

theorem ordered_report (stats : Stats) (buckets : Table) :
    (Json.Value.object [("stats", stats.toJson), ("buckets", .array (buckets.map Bucket.toJson))]).ordered =
      summaryValue stats buckets := by
  have hbuckets : (Json.Value.array (buckets.map Bucket.toJson)).ordered =
      .array (buckets.map fun bucket => .object
        [("offset", .number (.natural bucket.offset)), ("total_length", .number (.natural bucket.totalLength))]) := by
    rw [Json.Value.ordered, Json.orderedItems_eq, List.map_map]
    rfl
  rw [Json.Value.ordered, Json.orderedFields, Json.orderedFields, Json.orderedFields, hbuckets]
  rfl

/-- The numbers of a store are words, if the size of its buckets is one. -/
theorem plain_report (h : Holds s buffer log) (hsize : s.bucketSize ≤ Word.limit) :
    (Json.Value.object [("stats", s.stats.toJson), ("buckets", .array (s.buckets.map Bucket.toJson))]).Plain
      Json.maxLevels := by
  have hframes := h.length_lt_limit
  have hcount : s.frameCount ≤ Word.limit := h.count ▸ Nat.le_of_lt hframes
  have hbuckets : s.buckets.length ≤ Word.limit := by
    rw [h.buckets, Table.length_partition, length_sizes]
    exact Nat.le_trans (Table.bucketsFor_le h.bucketSize _) hframes
  have hcapacity : s.capacity ≤ Word.limit := h.capacity_eq ▸ Nat.le_trans h.addressable (by decide)
  have hdata : s.dataEnd ≤ Word.limit := h.dataEnd ▸ Nat.le_trans h.readable.addressable (by decide)
  have hbucket : ∀ bucket ∈ s.buckets, bucket.offset ≤ Word.limit ∧ bucket.totalLength ≤ Word.limit := by
    rw [h.buckets]
    intro bucket hmem
    obtain ⟨k, -, rfl⟩ := List.mem_map.mp hmem
    exact ⟨Nat.le_trans (Table.offset_le_sum ..) h.sum_le, Nat.le_trans (h.fits k) (by decide)⟩
  intro field hfield
  simp only [List.mem_cons, List.not_mem_nil, or_false] at hfield
  rcases hfield with rfl | rfl
  · intro number hnumber
    simp only [List.mem_cons, List.not_mem_nil, or_false] at hnumber
    rcases hnumber with rfl | rfl | rfl | rfl | rfl
    · exact ⟨_, hcount, rfl⟩
    · exact ⟨_, hbuckets, rfl⟩
    · exact ⟨_, hsize, rfl⟩
    · exact ⟨_, hdata, rfl⟩
    · exact ⟨_, hcapacity, rfl⟩
  · intro item hitem
    obtain ⟨bucket, hmem, rfl⟩ := List.mem_map.mp hitem
    intro number hnumber
    simp only [List.mem_cons, List.not_mem_nil, or_false] at hnumber
    rcases hnumber with rfl | rfl
    · exact ⟨_, (hbucket bucket hmem).1, rfl⟩
    · exact ⟨_, (hbucket bucket hmem).2, rfl⟩

/-- The report of a store whose numbers are words is read back. -/
theorem readAll_reportJson (h : Holds s buffer log) (hsize : s.bucketSize ≤ Word.limit) :
    Json.readAll (Json.readValue Json.maxLevels) (reportJson s) = .ok (summaryValue s.stats s.buckets) := by
  rw [reportJson, Json.readAll_writeIndented (plain_report h hsize), ordered_report]

theorem showsSummary (h : Holds s buffer log) (hcapacity : s.capacity = max 4096 log.bytes.length)
    (hsource : machine.ask (readSource path) = .ok log.bytes)
    (hrebuild : rebuild alloc path s.bucketSize log.bytes = .ok s) :
    ShowsSummary alloc machine path s.bucketSize log := by
  have hcount := h.tiles.count
  rw [length_sizes] at hcount
  have hstats : s.stats = ⟨log.length, max 1 ((log.length + s.bucketSize - 1) / s.bucketSize), s.bucketSize,
      log.bytes.length, max 4096 log.bytes.length⟩ := by
    rw [Store.stats, h.count, hcount, h.dataEnd, hcapacity]
  refine ⟨s.buckets, h.tiles, ?_, reportJson s, ?_, fun hsize => ?_⟩
  · have htext := run_inspect_text hsource hrebuild h.averagePayload_eq
    rw [hstats, reportLines, h.count, h.dataEnd] at htext
    exact htext
  · rw [← hstats]
    exact run_inspect_json hsource hrebuild
  · rw [← hstats]
    exact readAll_reportJson h hsize

/-! ## Getting -/

theorem reserveAnswers_of_room (h : RoomForAnswers alloc count) : reserveAnswers alloc count = .ok () := by
  obtain ⟨hsize, hzero | hgranted⟩ := h
  · subst hzero
    rfl
  · simp [reserveAnswers, Nat.not_lt.mpr hsize, hgranted]

/-- Every text has its line, under the number that it has among all texts. -/
theorem lines_within (h : index + count ≤ texts.length) : get.lines index ((texts.drop index).take count) =
    (List.range' index count).flatMap fun i => frameLine i (texts.getD i []) := by
  induction count generalizing index with
  | zero => rfl
  | succ count ih =>
      have hindex : index < texts.length := by omega
      have htail : get.lines (index + 1) ((texts.drop (index + 1)).take count) = _ := ih (by omega)
      rw [List.drop_eq_getElem_cons hindex, List.take_succ_cons, get.lines, List.zipIdx_cons, List.flatMap_cons,
        List.range'_succ, List.flatMap_cons, List.getD_eq_getElem texts [] hindex, ← htail]
      rfl

/-- With room for the answers, the frames are visited; what has been shown is printed, also where the visit fails. -/
theorem run_get (hsource : machine.ask (readSource path) = .ok data) (hrebuild : rebuild alloc path b data = .ok s)
    (index count : Nat) (hex : Bool) : machine.run (get alloc path b index count hex) =
      machine.proceed (reserveAnswers alloc count) fun _ =>
        match s.iterate index (Word.saturatingAdd index count)
          (fun _ frame read => render hex frame.elements :: read) [] with
        | .ok _ read => (.ok read.reverse, machine.printed (get.lines index read.reverse))
        | .error e read => (atStage (.selectFrames index (Word.saturatingAdd index count) s.frameCount) (.error e),
            machine.printed (get.lines index read.reverse)) := by
  rw [get, (Reads.readSource path).run_bind, hsource, Machine.proceed_ok, Machine.run_lift_bind, hrebuild,
    Machine.proceed_ok, Machine.run_lift_bind]
  refine congrArg (machine.proceed _) (funext fun _ => ?_)
  simp only
  cases s.iterate index (Word.saturatingAdd index count) (fun _ frame read => render hex frame.elements :: read) [] with
  | ok _ read => simp only [Machine.run_bind, Machine.run_print, Machine.run_pure]
  | error e read => simp only [Machine.run_bind, Machine.run_print, Machine.run_lift]

theorem showsFrames (h : Holds s buffer log) (hsource : machine.ask (readSource path) = .ok log.bytes)
    (hrebuild : rebuild alloc path b log.bytes = .ok s) (hex : Bool) :
    ShowsFrames alloc machine path b hex (log.map (render hex)) := by
  intro index count hwithin hroom
  have hlines := lines_within hwithin
  rw [List.length_map] at hwithin
  have hlimit := h.length_lt_limit
  have hstop : Word.saturatingAdd index count = index + count := Nat.min_eq_left (by omega)
  rw [run_get hsource hrebuild, reserveAnswers_of_room hroom, Machine.proceed_ok, hstop]
  simp only [h.iterate_collect (render hex) hwithin, List.reverse_reverse, List.map_take, List.map_drop]
  rw [hlines]
  rfl

/-! ## Hexadecimal digits -/

theorem hexDigit_eq {n : Nat} (h : n < 16) : Bytes.hexDigit n = n.digitChar := by
  interval_cases n <;> rfl

/-- Each byte has two digits, the higher one first. -/
theorem hex_eq (bytes : Bytes) : bytes.hex =
    bytes.flatMap fun byte => [Nat.digitChar (byte.toNat / 16), Nat.digitChar (byte.toNat % 16)] := by
  refine congrArg (List.flatMap · bytes) (funext fun byte => ?_)
  have hbyte := byte.toNat_lt
  rw [hexDigit_eq (by omega), hexDigit_eq (by omega)]

/-- The bytes of which these are the digits. -/
def ofHex? : List Char → Option Bytes
  | [] => some []
  | [_] => none
  | high :: low :: rest => do
    return .ofNat (16 * (← Json.hexValue? high) + (← Json.hexValue? low)) :: (← ofHex? rest)

theorem ofHex?_hex (bytes : Bytes) : ofHex? bytes.hex = some bytes := by
  rw [hex_eq]
  induction bytes with
  | nil => rfl
  | cons byte bytes ih =>
      have hbyte := byte.toNat_lt
      have hnat : 16 * (byte.toNat / 16) + byte.toNat % 16 = byte.toNat := Nat.div_add_mod ..
      rw [List.flatMap_cons, List.cons_append, List.cons_append, List.nil_append, ofHex?, ih,
        Json.hexValue?_digitChar (show byte.toNat / 16 < 16 by omega),
        Json.hexValue?_digitChar (Nat.mod_lt byte.toNat (by decide))]
      show some (UInt8.ofNat (16 * (byte.toNat / 16) + byte.toNat % 16) :: bytes) = _
      rw [hnat, UInt8.ofNat_toNat]

/-! ## What packing writes -/

theorem render_payload (value : Json.Value) : render false (payload value) = Json.write value := by
  rw [render, if_neg Bool.false_ne_true, payload, Utf8.decodeLossy_encode]

/-- Packing writes the frames of all the values' texts and answers with their number and length. In buckets of any
size in which these frames fit, the file is inspected and its frames are read: the texts again, or their bytes in two
hexadecimal digits each. -/
theorem pack_lossless (htext : machine.ask (readText input) = .ok text)
    (hvalues : parsePayloads text format = .ok values)
    (hpack : machine.run (pack alloc input output format options) = (.ok stats, after)) :
    let log : Log := values.map payload
    after.read output = .ok log.bytes ∧ stats.frames = values.length ∧ stats.dataLength = log.bytes.length ∧
      ∀ b, 0 < b → Table.Fits b log.sizes → ∀ (alloc : Allocator) (machine : Machine) (path : String),
        machine.ask (readSource path) = .ok log.bytes → alloc (max 4096 log.bytes.length) →
          ShowsSummary alloc machine path b log ∧ ShowsFrames alloc machine path b false (values.map Json.write) ∧
            ShowsFrames alloc machine path b true (values.map fun value => (payload value).flatMap fun byte =>
              [Nat.digitChar (byte.toNat / 16), Nat.digitChar (byte.toNat % 16)]) := by
  intro log
  rw [Machine.run_pack] at hpack
  cases hfilled : filled alloc machine input format options with
  | error e =>
      rw [hfilled] at hpack
      cases hpack
  | ok s =>
      obtain ⟨text', values', buffer, htext', hvalues', hholds⟩ := filled_eq_ok hfilled
      cases htext.symm.trans htext'
      cases hvalues.symm.trans hvalues'
      rw [hfilled, Machine.proceed_ok, Machine.run_save hholds] at hpack
      split at hpack
      · next written hwrite =>
          cases hpack
          refine ⟨Machine.read_write hwrite, hholds.count.trans (List.length_map _), hholds.dataEnd, ?_⟩
          intro b hb hfits alloc machine path hsource hgranted
          obtain ⟨t, c, hrebuild, hshown, rfl, hcapacity⟩ :=
            rebuild_holds hb hfits hholds.readable.addressable hgranted path
          have htexts := showsFrames hshown hsource hrebuild
          refine ⟨showsSummary hshown hcapacity hsource hrebuild, ?_, ?_⟩
          · have hfalse := htexts false
            rw [List.map_map] at hfalse
            rwa [← List.map_congr_left fun value _ => render_payload value]
          · have htrue := htexts true
            rw [List.map_map] at htrue
            rwa [← List.map_congr_left fun value _ => hex_eq (payload value)]
      · cases hpack

/-- A number and a text are packed one by one and inspected in a bucket of two: in words, and as a report that is read
back. The text is got from there as it was, and both in hexadecimal digits. -/
theorem pack_lossless_two_values :
    let machine : Machine := { entries := [], input := [91, 55, 44, 34, 195, 169, 34, 93] }
    let options : Options := { bucketSize := some 1, capacity := some 16, noExpand := true }
    let granting : Allocator := fun _ => true
    ∃ after, machine.run (pack granting "-" "o" .json options) = (.ok ⟨2, 2, 1, 13, 16⟩, after) ∧
      after.read "o" = .ok [1, 0, 0, 0, 55, 4, 0, 0, 0, 34, 195, 169, 34] ∧
      after.run (inspect granting "o" 2 false) = (.ok ⟨2, 1, 2, 13, 4096⟩, after.printed
        (["", "=== Store Summary ===", "Frames:            2", "Buckets:           1 (2 frames each)",
          "Data length:       13 bytes", "Average payload:   2.5 bytes", "", "=== Buckets ===",
          "Bucket 0 @ offset 0: 13 bytes", "", "✓ Index rebuilt from 13 bytes"].flatMap fun line =>
          line.toList ++ ['\n'])) ∧
      (∃ report, after.run (inspect granting "o" 2 true) = (.ok ⟨2, 1, 2, 13, 4096⟩, after.printed report) ∧
        Json.readAll (Json.readValue Json.maxLevels) report = .ok (summaryValue ⟨2, 1, 2, 13, 4096⟩ [⟨0, 13⟩])) ∧
      after.run (get granting "o" 2 1 1 false) =
        (.ok ["\"é\"".toList], after.printed "Frame 1: \"é\"\n".toList) ∧
      after.run (get granting "o" 2 0 2 true) =
        (.ok ["37".toList, "22c3a922".toList], after.printed "Frame 0: 37\nFrame 1: 22c3a922\n".toList) := by
  intro machine options granting
  have htext : machine.ask (readText "-") = .ok ['[', '7', ',', '"', 'é', '"', ']'] := by cbv
  have hvalues : parsePayloads ['[', '7', ',', '"', 'é', '"', ']'] .json =
      .ok [.number (.natural 7), .string "é"] := by cbv
  have hpack : machine.run (pack granting "-" "o" .json options) = (.ok ⟨2, 2, 1, 13, 16⟩,
      machine.withEntry ["o"] (.file [1, 0, 0, 0, 55, 4, 0, 0, 0, 34, 195, 169, 34])) := by cbv
  obtain ⟨hread, -, -, hshown⟩ := pack_lossless htext hvalues hpack
  have hlog : [Json.Value.number (.natural 7), .string "é"].map payload = [[55], [34, 195, 169, 34]] := by cbv
  have htexts : [Json.Value.number (.natural 7), .string "é"].map Json.write = [['7'], ['"', 'é', '"']] := by cbv
  have hdigits : [Json.Value.number (.natural 7), .string "é"].map (fun value => (payload value).flatMap fun byte =>
      [Nat.digitChar (byte.toNat / 16), Nat.digitChar (byte.toNat % 16)]) = ["37".toList, "22c3a922".toList] := by cbv
  rw [hlog] at hread hshown
  rw [htexts, hdigits] at hshown
  obtain ⟨⟨buckets, htiles, hlines, report, hreport, hvalue⟩, hplain, hhex⟩ := hshown 2 (by decide)
    (Table.fits_of_sum_le (by decide)) granting _ "o" (Machine.ask_readSource (by decide) hread) rfl
  obtain rfl : buckets = [⟨0, 13⟩] := htiles.eq_partition.trans (by decide)
  have hone := hplain 1 1 (by decide) ⟨by decide, .inr rfl⟩
  have hboth := hhex 0 2 (by decide) ⟨by decide, .inr rfl⟩
  have hsummary : summaryLines 2 [[55], [34, 195, 169, 34]] [⟨0, 13⟩] =
      ["", "=== Store Summary ===", "Frames:            2", "Buckets:           1 (2 frames each)",
        "Data length:       13 bytes", "Average payload:   2.5 bytes", "", "=== Buckets ===",
        "Bucket 0 @ offset 0: 13 bytes", "", "✓ Index rebuilt from 13 bytes"] := by decide +kernel
  have honeLine : ((List.range' 1 1).flatMap fun i => s!"Frame {i}: ".toList ++ [['7'], ['"', 'é', '"']].getD i [] ++
      ['\n']) = "Frame 1: \"é\"\n".toList := by cbv
  have hbothLines : ((List.range' 0 2).flatMap fun i => s!"Frame {i}: ".toList ++
      ["37".toList, "22c3a922".toList].getD i [] ++ ['\n']) = "Frame 0: 37\nFrame 1: 22c3a922\n".toList := by cbv
  rw [hsummary] at hlines
  rw [honeLine] at hone
  rw [hbothLines] at hboth
  exact ⟨_, hpack, hread, hlines, ⟨report, hreport, hvalue (by decide)⟩, hone, hboth⟩

end FrameLog.Command
