import FrameLog.Json.Schema
import FrameLog.Proofs.Json.Record

/-!
# Configurations as texts

Which texts are configurations, and which configuration each of them is: what it says, and the defaults for what it does
not say (`Config.gives_readJson`).
-/

namespace FrameLog

open Json

namespace Expansion

variable {text rest : List Char} {x : Expansion}

theorem allowed_part : IsPart fields "allowed" Parts.allowed readBool := by
  refine ⟨?_, _, List.mem_of_getElem? (i := 0) rfl, fun _ _ => rfl⟩
  simp only [Owns, fields, List.forall_mem_cons]
  exact ⟨fun h => absurd rfl h, fun _ => keeps_of fun _ _ => rfl, by simp⟩

theorem factor_part : IsPart fields "factor" Parts.factor readSingle := by
  refine ⟨?_, _, List.mem_of_getElem? (i := 1) rfl, fun _ _ => rfl⟩
  simp only [Owns, fields, List.forall_mem_cons]
  exact ⟨fun _ => keeps_of fun _ _ => rfl, fun h => absurd rfl h, by simp⟩

theorem independent : Independent fields where
  distinct := by decide
  kept := by
    simp only [fields, List.forall_mem_cons]
    exact ⟨allowed_part.keeps_isSet rfl, factor_part.keeps_isSet rfl, by simp⟩

/-- A text that says whether growth is allowed and by which factor. What it does not say is as in a buffer that is not
to grow. -/
def Said (text : List Char) (x : Expansion) (rest : List Char) : Prop :=
  ∃ ms allowed factor, RecordText ["allowed", "factor"] text ms rest ∧ Says ms "allowed" BoolText allowed ∧
    Says ms "factor" (Gives readSingle) factor ∧ PassesOver ms ["allowed", "factor"] ∧
    x = ⟨allowed.getD false, factor.getD (.finite false 12582912 (-23))⟩

theorem steps_said {ms : List Member} {p : Parts} (h : Steps (recordMember fields) {} ms p) :
    Says ms "allowed" (Gives readBool) p.allowed ∧ Says ms "factor" (Gives readSingle) p.factor :=
  ⟨(h.said independent allowed_part).1 rfl, (h.said independent factor_part).1 rfl⟩

theorem gives_fields {p : Parts} : Gives (readRecord fields {}) text p rest ↔
    ∃ ms, RecordText ["allowed", "factor"] text ms rest ∧ Says ms "allowed" (Gives readBool) p.allowed ∧
      Says ms "factor" (Gives readSingle) p.factor ∧ PassesOver ms ["allowed", "factor"] := by
  have hfresh : ∀ f ∈ fields, f.isSet {} = false := by decide
  rw [gives_readRecord independent hfresh]
  constructor
  · rintro ⟨ms, htext, hsteps⟩
    obtain ⟨hallowed, hfactor⟩ := steps_said hsteps
    exact ⟨ms, htext, hallowed, hfactor, hsteps.passesOver independent⟩
  · rintro ⟨ms, htext, hallowed, hfactor, hpass⟩
    have hread : ∀ f ∈ fields, f.ReadFrom ms := by
      simp only [fields, List.forall_mem_cons]
      exact ⟨hallowed.readFrom, hfactor.readFrom, by simp⟩
    obtain ⟨u, hsteps⟩ := exists_steps independent hfresh hread hpass
    obtain ⟨hallowed', hfactor'⟩ := steps_said hsteps
    obtain rfl : u = p := by
      cases u
      cases p
      rw [Parts.mk.injEq]
      exact ⟨hallowed'.unique hallowed, hfactor'.unique hfactor⟩
    exact ⟨ms, htext, hsteps⟩

theorem gives_readJson : Gives readJson text x rest ↔ Said text x rest := by
  rw [readJson, gives_finish]
  constructor
  · rintro ⟨p, hread, rfl⟩
    obtain ⟨ms, htext, hallowed, hfactor, hpass⟩ := gives_fields.mp hread
    exact ⟨ms, _, _, htext, (says_congr fun _ _ _ => gives_readBool).mp hallowed, hfactor, hpass, rfl⟩
  · rintro ⟨ms, allowed, factor, htext, hallowed, hfactor, hpass, rfl⟩
    have hallowed := (says_congr fun _ _ _ => gives_readBool).mpr hallowed
    exact ⟨⟨allowed, factor⟩, gives_fields.mpr ⟨ms, htext, hallowed, hfactor, hpass⟩, rfl⟩

end Expansion

namespace Config

variable {text rest : List Char} {config : Config}

theorem bucketSize_part : IsPart fields "bucket_size" Parts.bucketSize readCount := by
  refine ⟨?_, _, List.mem_of_getElem? (i := 0) rfl, fun _ _ => rfl⟩
  simp only [Owns, fields, List.forall_mem_cons]
  exact ⟨fun h => absurd rfl h, fun _ => keeps_of fun _ _ => rfl, fun _ => keeps_of fun _ _ => rfl,
    fun _ => keeps_of fun _ _ => rfl, by simp⟩

theorem initialCapacity_part : IsPart fields "initial_capacity" Parts.initialCapacity readSize := by
  refine ⟨?_, _, List.mem_of_getElem? (i := 1) rfl, fun _ _ => rfl⟩
  simp only [Owns, fields, List.forall_mem_cons]
  exact ⟨fun _ => keeps_of fun _ _ => rfl, fun h => absurd rfl h, fun _ => keeps_of fun _ _ => rfl,
    fun _ => keeps_of fun _ _ => rfl, by simp⟩

theorem expansion_part : IsPart fields "expansion" Parts.expansion Expansion.readJson := by
  refine ⟨?_, _, List.mem_of_getElem? (i := 2) rfl, fun _ _ => rfl⟩
  simp only [Owns, fields, List.forall_mem_cons]
  exact ⟨fun _ => keeps_of fun _ _ => rfl, fun _ => keeps_of fun _ _ => rfl, fun h => absurd rfl h,
    fun _ => keeps_of fun _ _ => rfl, by simp⟩

theorem expectedFrames_part : IsPart fields "expected_frames" Parts.expectedFrames readSize := by
  refine ⟨?_, _, List.mem_of_getElem? (i := 3) rfl, fun _ _ => rfl⟩
  simp only [Owns, fields, List.forall_mem_cons]
  exact ⟨fun _ => keeps_of fun _ _ => rfl, fun _ => keeps_of fun _ _ => rfl, fun _ => keeps_of fun _ _ => rfl,
    fun h => absurd rfl h, by simp⟩

theorem independent : Independent fields where
  distinct := by decide
  kept := by
    simp only [fields, List.forall_mem_cons]
    exact ⟨bucketSize_part.keeps_isSet rfl, initialCapacity_part.keeps_isSet rfl, expansion_part.keeps_isSet rfl,
      expectedFrames_part.keeps_isSet rfl, by simp⟩

/-- A text that says what a store is created with. What it does not say is as by default. -/
def Said (text : List Char) (config : Config) (rest : List Char) : Prop :=
  ∃ ms size capacity expansion frames,
    RecordText ["bucket_size", "initial_capacity", "expansion", "expected_frames"] text ms rest ∧
    Says ms "bucket_size" (NaturalText 0x100000000) size ∧
    Says ms "initial_capacity" (NaturalText 0x10000000000000000) capacity ∧
    Says ms "expansion" Expansion.Said expansion ∧
    Says ms "expected_frames" (NaturalText 0x10000000000000000) frames ∧
    PassesOver ms ["bucket_size", "initial_capacity", "expansion", "expected_frames"] ∧
    config = ⟨size.getD 64, capacity.getD 4096, expansion.getD ⟨false, .finite false 12582912 (-23)⟩, frames.getD 0⟩

theorem steps_said {ms : List Member} {p : Parts} (h : Steps (recordMember fields) {} ms p) :
    Says ms "bucket_size" (Gives readCount) p.bucketSize ∧
      Says ms "initial_capacity" (Gives readSize) p.initialCapacity ∧
      Says ms "expansion" (Gives Expansion.readJson) p.expansion ∧
      Says ms "expected_frames" (Gives readSize) p.expectedFrames :=
  ⟨(h.said independent bucketSize_part).1 rfl, (h.said independent initialCapacity_part).1 rfl,
    (h.said independent expansion_part).1 rfl, (h.said independent expectedFrames_part).1 rfl⟩

theorem gives_fields {p : Parts} : Gives (readRecord fields {}) text p rest ↔
    ∃ ms, RecordText ["bucket_size", "initial_capacity", "expansion", "expected_frames"] text ms rest ∧
      Says ms "bucket_size" (Gives readCount) p.bucketSize ∧
      Says ms "initial_capacity" (Gives readSize) p.initialCapacity ∧
      Says ms "expansion" (Gives Expansion.readJson) p.expansion ∧
      Says ms "expected_frames" (Gives readSize) p.expectedFrames ∧
      PassesOver ms ["bucket_size", "initial_capacity", "expansion", "expected_frames"] := by
  have hfresh : ∀ f ∈ fields, f.isSet {} = false := by decide
  rw [gives_readRecord independent hfresh]
  constructor
  · rintro ⟨ms, htext, hsteps⟩
    obtain ⟨hsize, hcapacity, hexpansion, hframes⟩ := steps_said hsteps
    exact ⟨ms, htext, hsize, hcapacity, hexpansion, hframes, hsteps.passesOver independent⟩
  · rintro ⟨ms, htext, hsize, hcapacity, hexpansion, hframes, hpass⟩
    have hread : ∀ f ∈ fields, f.ReadFrom ms := by
      simp only [fields, List.forall_mem_cons]
      exact ⟨hsize.readFrom, hcapacity.readFrom, hexpansion.readFrom, hframes.readFrom, by simp⟩
    obtain ⟨u, hsteps⟩ := exists_steps independent hfresh hread hpass
    obtain ⟨hsize', hcapacity', hexpansion', hframes'⟩ := steps_said hsteps
    obtain rfl : u = p := by
      cases u
      cases p
      rw [Parts.mk.injEq]
      exact ⟨hsize'.unique hsize, hcapacity'.unique hcapacity, hexpansion'.unique hexpansion, hframes'.unique hframes⟩
    exact ⟨ms, htext, hsteps⟩

theorem gives_readCount {n : Nat} : Gives readCount text n rest ↔ NaturalText 0x100000000 text n rest :=
  gives_readNatural (by decide)

theorem gives_readSize {n : Nat} : Gives readSize text n rest ↔ NaturalText 0x10000000000000000 text n rest :=
  gives_readNatural (Nat.le_refl _)

theorem gives_readJson : Gives readJson text config rest ↔ Said text config rest := by
  rw [readJson, gives_finish]
  constructor
  · rintro ⟨p, hread, rfl⟩
    obtain ⟨ms, htext, hsize, hcapacity, hexpansion, hframes, hpass⟩ := gives_fields.mp hread
    exact ⟨ms, _, _, _, _, htext, (says_congr fun _ _ _ => gives_readCount).mp hsize,
      (says_congr fun _ _ _ => gives_readSize).mp hcapacity,
      (says_congr fun _ _ _ => Expansion.gives_readJson).mp hexpansion,
      (says_congr fun _ _ _ => gives_readSize).mp hframes, hpass, rfl⟩
  · rintro ⟨ms, size, capacity, expansion, frames, htext, hsize, hcapacity, hexpansion, hframes, hpass, rfl⟩
    have hsize := (says_congr fun _ _ _ => gives_readCount).mpr hsize
    have hcapacity := (says_congr fun _ _ _ => gives_readSize).mpr hcapacity
    have hexpansion := (says_congr fun _ _ _ => Expansion.gives_readJson).mpr hexpansion
    have hframes := (says_congr fun _ _ _ => gives_readSize).mpr hframes
    exact ⟨⟨size, capacity, expansion, frames⟩,
      gives_fields.mpr ⟨ms, htext, hsize, hcapacity, hexpansion, hframes, hpass⟩, rfl⟩

end Config
end FrameLog
