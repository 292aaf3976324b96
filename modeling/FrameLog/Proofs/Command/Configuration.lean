import FrameLog.Proofs.Command.Pack
import FrameLog.Proofs.Json.Schema

/-!
# The configuration of a command

Options override what a file says (`startsFrom_iff`), or the standard configuration where no file is given. Only what
comes of that has to be valid (`resolve_eq_ok`, `resolve_eq_error`).
-/

namespace FrameLog

/-- A record that is never incomplete is completed whenever it is read. -/
theorem Json.readAll_finish {σ α : Type} (r : Json.Reader σ) (complete : σ → α) (text : List Char) :
    Json.readAll (r.finish fun x => some (complete x)) text = (Json.readAll r text).map complete := by
  unfold Json.readAll Json.Reader.finish
  cases r text with
  | error problem => rfl
  | ok c =>
      simp only [Json.Consumed.map, apply_ite (Except.map complete)]
      rfl

namespace Command.Options

variable {machine : Machine} {options : Options} {base config : Config} {e : Stop}

/-- What the options override: the standard configuration, or the parts that are in a file over the default ones. -/
inductive StartsFrom (machine : Machine) (options : Options) : Config → Prop
  | standard (without : options.config = none) : StartsFrom machine options standard
  | file {path : String} {bytes : Bytes} {text : List Char} {parts : Config.Parts} (given : options.config = some path)
      (found : machine.read path = .ok bytes) (decoded : Utf8.decode bytes = .ok text)
      (parsed : Json.readAll (Json.readRecord Config.fields {}) text = .ok parts) :
      StartsFrom machine options parts.complete

/-- What the options override, told from the text of the file. Without one it is a store of buckets of 64 frames with
4096 bytes, which grows by one and a half. -/
inductive IsBase (machine : Machine) (options : Options) : Config → Prop
  | standard (without : options.config = none) :
      IsBase machine options ⟨64, 4096, ⟨true, .finite false 12582912 (-23)⟩, 0⟩
  | file {path : String} {bytes : Bytes} {text rest : List Char} {config : Config} (given : options.config = some path)
      (found : machine.read path = .ok bytes) (decoded : Utf8.decode bytes = .ok text)
      (said : Config.Said text config rest) (whole : Json.skipSpace rest = []) : IsBase machine options config

/-- A file is given that holds no configuration. -/
inductive NoStart (machine : Machine) (options : Options) : Stop → Prop
  | unreadable {path : String} {problem : FileProblem} (given : options.config = some path)
      (denied : machine.read path = .error problem) :
      NoStart machine options (.failed (.readConfig path) (.file problem))
  | undecodable {path : String} {bytes : Bytes} {error : Utf8.Error} (given : options.config = some path)
      (found : machine.read path = .ok bytes) (broken : Utf8.decode bytes = .error error) :
      NoStart machine options (.failed (.readConfig path) (.file .invalidData))
  | unparsable {path : String} {bytes : Bytes} {text : List Char} {problem : Json.Problem}
      (given : options.config = some path) (found : machine.read path = .ok bytes)
      (decoded : Utf8.decode bytes = .ok text)
      (broken : Json.readAll (Json.readRecord Config.fields {}) text = .error problem) :
      NoStart machine options (.failed (.parseConfig path) (.json problem))

/-- An option that is given counts, else the base does. Growing is forbidden by the one flag, else allowed by a
factor, else as in the base. -/
structure Overrides (options : Options) (base config : Config) : Prop where
  bucketSize : config.bucketSize = options.bucketSize.getD base.bucketSize
  initialCapacity : config.initialCapacity = options.capacity.getD base.initialCapacity
  factor : config.expansion.factor = options.factor.getD base.expansion.factor
  allowed : config.expansion.allowed =
    if options.noExpand then false else if options.factor.isSome then true else base.expansion.allowed
  expectedFrames : config.expectedFrames = base.expectedFrames

/-- The options come to a configuration that is valid. -/
def ResolvesTo (machine : Machine) (options : Options) (config : Config) : Prop :=
  ∃ base, options.StartsFrom machine base ∧ options.Overrides base config ∧ config.validate = .ok ()

/-- The options come to no configuration, or to one that is not valid. -/
inductive Unresolved (machine : Machine) (options : Options) : Stop → Prop
  | start {e : Stop} (none : options.NoStart machine e) : Unresolved machine options e
  | invalid {base config : Config} {r : Refusal} (start : options.StartsFrom machine base)
      (overrides : options.Overrides base config) (invalid : config.validate = refuse r) :
      Unresolved machine options (.failed .validateConfig (.store r))

theorem overrides_iff : options.Overrides base config ↔ config = options.merge base := by
  constructor
  · rintro ⟨hsize, hcapacity, hfactor, hallowed, hframes⟩
    obtain ⟨size, capacity, ⟨allowed, factor⟩, frames⟩ := config
    cases hgiven : options.factor <;> cases hnever : options.noExpand <;>
      simp_all [merge, Expansion.growable]
  · rintro rfl
    cases hgiven : options.factor <;> cases hnever : options.noExpand <;>
      constructor <;> simp [merge, Expansion.growable, hgiven, hnever]

/-! ## Where options start -/

theorem startsFrom_iff : options.StartsFrom machine base ↔ options.IsBase machine base := by
  have hread {text : List Char} : Json.readAll Config.readJson text = .ok base ↔
      ∃ rest, Config.Said text base rest ∧ Json.skipSpace rest = [] := by
    simp only [Json.readAll_eq_ok, Config.gives_readJson]
  constructor
  · rintro (hwithout | ⟨hgiven, hfound, hdecoded, hparsed⟩)
    · exact .standard hwithout
    · obtain ⟨rest, hsaid, hwhole⟩ := hread.mp (by rw [Config.readJson, Json.readAll_finish, hparsed]; rfl)
      exact .file hgiven hfound hdecoded hsaid hwhole
  · rintro (hwithout | ⟨hgiven, hfound, hdecoded, hsaid, hwhole⟩)
    · exact .standard hwithout
    · have hparsed := hread.mpr ⟨_, hsaid, hwhole⟩
      rw [Config.readJson, Json.readAll_finish, map_eq_ok] at hparsed
      obtain ⟨parts, hparts, rfl⟩ := hparsed
      exact .file hgiven hfound hdecoded hparts

theorem ask_readConfig (machine : Machine) (path : String) : machine.ask (readConfig path) = (do
    let bytes ← (machine.read path).mapError fun problem => .failed (.readConfig path) (.file problem)
    let text ← (Utf8.decode bytes).mapError fun _ => .failed (.readConfig path) (.file .invalidData)
    let parts ← (Json.readAll (Json.readRecord Config.fields {}) text).mapError fun problem =>
      .failed (.parseConfig path) (.json problem)
    return parts.complete) := by
  rw [readConfig, (Reads.readFile _ path).ask_bind, Machine.ask, Machine.run_readFile]
  cases machine.read path with
  | error problem => rfl
  | ok bytes =>
      cases hdecode : Utf8.decode bytes with
      | error error =>
          simp only [ok_mapError, error_mapError, ok_bind, hdecode]
          rfl
      | ok text =>
          simp only [ok_mapError, ok_bind, hdecode, Config.readJson, Json.readAll_finish]
          cases Json.readAll (Json.readRecord Config.fields {}) text <;> rfl

theorem ask_base_eq_ok : machine.ask options.base = .ok base ↔ options.StartsFrom machine base := by
  rw [Options.base]
  constructor
  · intro h
    split at h
    · next hwithout =>
        cases h
        exact .standard hwithout
    · next path hgiven =>
        rw [ask_readConfig] at h
        obtain ⟨bytes, hfound, h⟩ := bind_eq_ok.mp h
        obtain ⟨text, hdecoded, h⟩ := bind_eq_ok.mp h
        obtain ⟨parts, hparsed, h⟩ := bind_eq_ok.mp h
        cases h
        exact .file hgiven (mapError_eq_ok.mp hfound) (mapError_eq_ok.mp hdecoded) (mapError_eq_ok.mp hparsed)
  · rintro (hwithout | ⟨hgiven, hfound, hdecoded, hparsed⟩)
    · rw [hwithout]
      rfl
    · simp only [hgiven, ask_readConfig, hfound, hdecoded, hparsed, ok_mapError, ok_bind, pure_eq_ok]

theorem ask_base_eq_error : machine.ask options.base = .error e ↔ options.NoStart machine e := by
  rw [Options.base]
  constructor
  · intro h
    split at h
    · cases h
    · next path hgiven =>
        rw [ask_readConfig] at h
        rcases bind_eq_error.mp h with h | ⟨bytes, hfound, h⟩
        · obtain ⟨problem, hdenied, rfl⟩ := mapError_eq_error.mp h
          exact .unreadable hgiven hdenied
        have hfound := mapError_eq_ok.mp hfound
        rcases bind_eq_error.mp h with h | ⟨text, hdecoded, h⟩
        · obtain ⟨error, hbroken, rfl⟩ := mapError_eq_error.mp h
          exact .undecodable hgiven hfound hbroken
        have hdecoded := mapError_eq_ok.mp hdecoded
        rcases bind_eq_error.mp h with h | ⟨parts, -, h⟩
        · obtain ⟨problem, hbroken, rfl⟩ := mapError_eq_error.mp h
          exact .unparsable hgiven hfound hdecoded hbroken
        · cases h
  · rintro (⟨hgiven, hdenied⟩ | ⟨hgiven, hfound, hbroken⟩ | ⟨hgiven, hfound, hdecoded, hbroken⟩)
    · simp only [hgiven, ask_readConfig, hdenied, error_mapError, error_bind]
    · simp only [hgiven, ask_readConfig, hfound, hbroken, ok_mapError, error_mapError, ok_bind, error_bind]
    · simp only [hgiven, ask_readConfig, hfound, hdecoded, hbroken, ok_mapError, error_mapError, ok_bind, error_bind]

/-! ## Where options lead -/

namespace StartsFrom

variable (h : options.StartsFrom machine base)
include h

theorem resolve_eq_ok : machine.ask options.resolve = .ok config ↔
    config = options.merge base ∧ config.validate = .ok () := by
  rw [ask_resolve, ask_base_eq_ok.mpr h, ok_bind, bind_eq_ok]
  constructor
  · rintro ⟨_, hvalid, hmerge⟩
    cases hmerge
    exact ⟨rfl, atStage_eq_ok.mp hvalid⟩
  · rintro ⟨rfl, hvalid⟩
    exact ⟨(), atStage_eq_ok.mpr hvalid, rfl⟩

theorem resolve_eq_error : machine.ask options.resolve = .error e ↔
    ∃ r, (options.merge base).validate = refuse r ∧ e = .failed .validateConfig (.store r) := by
  rw [ask_resolve, ask_base_eq_ok.mpr h, ok_bind, bind_eq_error, atStage_eq_error]
  constructor
  · rintro ((hrefused | ⟨f, hfault, -⟩) | ⟨_, -, hmerge⟩)
    · exact hrefused
    · exact absurd hfault Config.validate_ne_fail
    · cases hmerge
  · exact fun hrefused => .inl (.inl hrefused)

end StartsFrom

theorem resolve_eq_ok : machine.ask options.resolve = .ok config ↔ options.ResolvesTo machine config := by
  constructor
  · intro h
    obtain ⟨base, hbase, -⟩ := bind_eq_ok.mp (ask_resolve .. ▸ h)
    have hstart := ask_base_eq_ok.mp hbase
    obtain ⟨hmerge, hvalid⟩ := hstart.resolve_eq_ok.mp h
    exact ⟨base, hstart, overrides_iff.mpr hmerge, hvalid⟩
  · rintro ⟨base, hstart, hoverrides, hvalid⟩
    exact hstart.resolve_eq_ok.mpr ⟨overrides_iff.mp hoverrides, hvalid⟩

theorem resolve_eq_error : machine.ask options.resolve = .error e ↔ options.Unresolved machine e := by
  constructor
  · intro h
    cases hbase : machine.ask options.base with
    | error e' =>
        rw [ask_resolve, hbase, error_bind] at h
        cases h
        exact .start (ask_base_eq_error.mp hbase)
    | ok base =>
        have hstart := ask_base_eq_ok.mp hbase
        obtain ⟨r, hinvalid, rfl⟩ := hstart.resolve_eq_error.mp h
        exact .invalid hstart (overrides_iff.mpr rfl) hinvalid
  · rintro (hnone | ⟨hstart, hoverrides, hinvalid⟩)
    · rw [ask_resolve, ask_base_eq_error.mpr hnone, error_bind]
    · obtain rfl := overrides_iff.mp hoverrides
      exact hstart.resolve_eq_error.mpr ⟨_, hinvalid, rfl⟩

end Command.Options
end FrameLog
