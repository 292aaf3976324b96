import FrameLog.Proofs.Command.Configuration
import FrameLog.Proofs.Command.Payloads
import FrameLog.Proofs.Store.Creation

/-!
# Packing writes everything or nothing

Packing reads a configuration, bytes, a text and its payloads, makes a store, fills it, and then writes. `Unfilled` says
which of the stages before the last is the first to fail, and why. If none does, `Packs` says what there is to be
written. Nothing but that is written, and to one place (`pack_all_or_nothing`).
-/

namespace FrameLog.Command

open Store (Holds Takes)

variable {alloc : Allocator} {machine after : Machine} {input output : String} {format : Format} {options : Options}
  {config : Config} {values : List Json.Value} {text : List Char} {s : Store} {e : Stop}

/-- The bytes of a file, or of the input for `-`. -/
def Machine.source (machine : Machine) (input : String) : Except FileProblem Bytes :=
  if input = "-" then .ok machine.input else machine.read input

/-- Everything is read that packing needs. -/
structure Prepared (machine : Machine) (input : String) (format : Format) (options : Options) (config : Config)
    (values : List Json.Value) : Prop where
  config : options.ResolvesTo machine config
  values : ∃ bytes text, machine.source input = .ok bytes ∧ Utf8.decode bytes = .ok text ∧ Parsed text format values

/-- Everything is read, and the texts of all values have gone into a store. -/
def Packs (alloc : Allocator) (machine : Machine) (input : String) (format : Format) (options : Options)
    (values : List Json.Value) (s : Store) : Prop :=
  ∃ config empty, Prepared machine input format options config values ∧ Store.create alloc config = .ok empty ∧
    Takes alloc empty (values.map payload) s

/-- The first stage that fails before anything is written, those before it having succeeded. -/
inductive Unfilled (alloc : Allocator) (machine : Machine) (input : String) (format : Format) (options : Options) :
    Stop → Prop
  | configuration {e : Stop} (unresolved : options.Unresolved machine e) : Unfilled alloc machine input format options e
  | source {config : Config} {problem : FileProblem} (resolved : options.ResolvesTo machine config)
      (denied : machine.source input = .error problem) :
      Unfilled alloc machine input format options (.failed (.readFile input) (.file problem))
  | text {config : Config} {bytes : Bytes} {error : Utf8.Error} (resolved : options.ResolvesTo machine config)
      (found : machine.source input = .ok bytes) (broken : Utf8.decode bytes = .error error) :
      Unfilled alloc machine input format options (.failed .decodeInput (.text error))
  | payloads {config : Config} {bytes : Bytes} {text : List Char} {e : Stop}
      (resolved : options.ResolvesTo machine config) (found : machine.source input = .ok bytes)
      (decoded : Utf8.decode bytes = .ok text) (unparsed : Unparsed text format e) :
      Unfilled alloc machine input format options e
  | creation {config : Config} {values : List Json.Value} {r : Refusal}
      (prepared : Prepared machine input format options config values) (refused : Store.create alloc config = refuse r) :
      Unfilled alloc machine input format options (.failed .createStore (.store r))
  | room {config : Config} {values : List Json.Value} {f : Fault}
      (prepared : Prepared machine input format options config values) (fault : Store.create alloc config = fail f) :
      Unfilled alloc machine input format options (.fault f)
  | append {config : Config} {values : List Json.Value} {empty full : Store} {taken rest : List Bytes} {next : Bytes}
      {r : Refusal} (prepared : Prepared machine input format options config values)
      (created : Store.create alloc config = .ok empty) (split : values.map payload = taken ++ next :: rest)
      (takes : Takes alloc empty taken full) (refused : Store.append alloc next full = .error (.refused r) full) :
      Unfilled alloc machine input format options (.failed (.appendFrame taken.length) (.store r))

/-! ## Stage by stage -/

theorem ask_readText (machine : Machine) (input : String) : machine.ask (readText input) = (do
    let bytes ← (machine.source input).mapError fun problem => .failed (.readFile input) (.file problem)
    (Utf8.decode bytes).mapError fun error => .failed .decodeInput (.text error)) := by
  have hsource : machine.ask (readSource input) =
      (machine.source input).mapError fun problem => .failed (.readFile input) (.file problem) := by
    rw [Machine.ask, readSource, Machine.source]
    split
    · rfl
    · rw [Machine.run_readFile]
  rw [readText, (Reads.readSource input).ask_bind, hsource]
  refine congrArg _ (funext fun bytes => ?_)
  cases Utf8.decode bytes <;> rfl

theorem readText_eq_ok : machine.ask (readText input) = .ok text ↔
    ∃ bytes, machine.source input = .ok bytes ∧ Utf8.decode bytes = .ok text := by
  simp only [ask_readText, bind_eq_ok, mapError_eq_ok]

theorem prepared_iff : Prepared machine input format options config values ↔
    machine.ask options.resolve = .ok config ∧
      ∃ text, machine.ask (readText input) = .ok text ∧ parsePayloads text format = .ok values := by
  constructor
  · rintro ⟨hconfig, bytes, text, hfound, hdecoded, hvalues⟩
    exact ⟨Options.resolve_eq_ok.mpr hconfig, text, readText_eq_ok.mpr ⟨bytes, hfound, hdecoded⟩,
      parsePayloads_eq_ok.mpr hvalues⟩
  · rintro ⟨hconfig, text, htext, hvalues⟩
    obtain ⟨bytes, hfound, hdecoded⟩ := readText_eq_ok.mp htext
    exact ⟨Options.resolve_eq_ok.mp hconfig, bytes, text, hfound, hdecoded, parsePayloads_eq_ok.mp hvalues⟩

theorem Prepared.filled_eq (h : Prepared machine input format options config values) (alloc : Allocator) :
    filled alloc machine input format options = (do
      let empty ← atStage .createStore (Store.create alloc config)
      appendAll alloc 0 (values.map payload) empty) := by
  obtain ⟨hconfig, text, htext, hvalues⟩ := prepared_iff.mp h
  rw [filled, hconfig, ok_bind, htext, ok_bind, hvalues, ok_bind]

theorem filled_eq_ok_iff : filled alloc machine input format options = .ok s ↔
    ∃ values, Packs alloc machine input format options values s := by
  constructor
  · intro h
    obtain ⟨config, hconfig, h⟩ := bind_eq_ok.mp h
    obtain ⟨text, htext, h⟩ := bind_eq_ok.mp h
    obtain ⟨values, hvalues, h⟩ := bind_eq_ok.mp h
    obtain ⟨empty, hcreate, h⟩ := bind_eq_ok.mp h
    exact ⟨values, config, empty, prepared_iff.mpr ⟨hconfig, text, htext, hvalues⟩, atStage_eq_ok.mp hcreate,
      appendAll_eq_ok.mp h⟩
  · rintro ⟨values, config, empty, hprepared, hcreate, htakes⟩
    rw [hprepared.filled_eq, hcreate]
    exact appendAll_eq_ok.mpr htakes

theorem filled_eq_error : filled alloc machine input format options = .error e ↔
    Unfilled alloc machine input format options e := by
  constructor
  · intro h
    rcases bind_eq_error.mp h with h | ⟨config, hconfig, h⟩
    · exact .configuration (Options.resolve_eq_error.mp h)
    have hresolved := Options.resolve_eq_ok.mp hconfig
    rcases bind_eq_error.mp h with h | ⟨text, htext, h⟩
    · rw [ask_readText] at h
      rcases bind_eq_error.mp h with h | ⟨bytes, hfound, h⟩
      · obtain ⟨problem, hdenied, rfl⟩ := mapError_eq_error.mp h
        exact .source hresolved hdenied
      · obtain ⟨error, hbroken, rfl⟩ := mapError_eq_error.mp h
        exact .text hresolved (mapError_eq_ok.mp hfound) hbroken
    rcases bind_eq_error.mp h with h | ⟨values, hvalues, h⟩
    · obtain ⟨bytes, hfound, hdecoded⟩ := readText_eq_ok.mp htext
      exact .payloads hresolved hfound hdecoded (parsePayloads_eq_error.mp h)
    have hprepared := prepared_iff.mpr ⟨hconfig, text, htext, hvalues⟩
    rcases bind_eq_error.mp h with h | ⟨empty, hcreate, h⟩
    · rcases atStage_eq_error.mp h with ⟨r, hrefused, rfl⟩ | ⟨f, hfault, rfl⟩
      · exact .creation hprepared hrefused
      · exact .room hprepared hfault
    have hcreated := atStage_eq_ok.mp hcreate
    obtain ⟨taken, next, rest, full, r, hsplit, htakes, hrefused, rfl⟩ :=
      (appendAll_eq_error (Store.create_holds hcreated)).mp h
    rw [Nat.zero_add]
    exact .append hprepared hcreated hsplit htakes hrefused
  · intro h
    cases h with
    | configuration hunresolved => rw [filled, Options.resolve_eq_error.mpr hunresolved, error_bind]
    | source hresolved hdenied =>
        rw [filled, Options.resolve_eq_ok.mpr hresolved, ok_bind, ask_readText, hdenied]
        rfl
    | text hresolved hfound hbroken =>
        rw [filled, Options.resolve_eq_ok.mpr hresolved, ok_bind, ask_readText, mapError_eq_ok.mpr hfound, ok_bind,
          hbroken]
        rfl
    | payloads hresolved hfound hdecoded hunparsed =>
        rw [filled, Options.resolve_eq_ok.mpr hresolved, ok_bind, readText_eq_ok.mpr ⟨_, hfound, hdecoded⟩, ok_bind,
          parsePayloads_eq_error.mpr hunparsed, error_bind]
    | creation hprepared hrefused =>
        rw [hprepared.filled_eq, hrefused]
        rfl
    | room hprepared hfault =>
        rw [hprepared.filled_eq, hfault]
        rfl
    | append hprepared hcreated hsplit htakes hrefused =>
        rw [hprepared.filled_eq, hcreated]
        exact (appendAll_eq_error (Store.create_holds hcreated)).mpr
          ⟨_, _, _, _, _, hsplit, htakes, hrefused, by rw [Nat.zero_add]⟩

/-! ## The whole -/

theorem unfilled_or_packs (alloc : Allocator) (machine : Machine) (input : String) (format : Format)
    (options : Options) : (∃ e, Unfilled alloc machine input format options e) ∨
      ∃ values s, Packs alloc machine input format options values s := by
  cases hfilled : filled alloc machine input format options with
  | error e => exact .inl ⟨e, filled_eq_error.mp hfilled⟩
  | ok s =>
      obtain ⟨values, hpacks⟩ := filled_eq_ok_iff.mp hfilled
      exact .inr ⟨values, s, hpacks⟩

theorem Unfilled.run_pack (h : Unfilled alloc machine input format options e) (output : String) :
    machine.run (pack alloc input output format options) = (.error e, machine) := by
  rw [Machine.run_pack, filled_eq_error.mpr h]
  rfl

theorem Packs.run_pack (h : Packs alloc machine input format options values s) (output : String) :
    machine.run (pack alloc input output format options) =
      match machine.write output (Log.bytes (values.map payload)) with
      | .ok after => (.ok s.stats, after)
      | .error problem => (.error (.failed (.writeOutput output) (.file problem)), machine) := by
  have hfilled := filled_eq_ok_iff.mpr ⟨values, h⟩
  obtain ⟨config, empty, -, hcreate, htakes⟩ := h
  obtain ⟨buffer, hholds⟩ := htakes.holds (Store.create_holds hcreate)
  rw [Machine.run_pack, hfilled, Machine.proceed_ok]
  exact Machine.run_save hholds machine output

theorem run_pack_eq_error : machine.run (pack alloc input output format options) = (.error e, after) ↔
    after = machine ∧ (Unfilled alloc machine input format options e ∨
      ∃ values s problem, Packs alloc machine input format options values s ∧
        machine.write output (Log.bytes (values.map payload)) = .error problem ∧
        e = .failed (.writeOutput output) (.file problem)) := by
  constructor
  · intro hrun
    rcases unfilled_or_packs alloc machine input format options with ⟨e', h⟩ | ⟨values, s, h⟩
    · cases (h.run_pack output).symm.trans hrun
      exact ⟨rfl, .inl h⟩
    · rw [h.run_pack] at hrun
      split at hrun
      · cases hrun
      · next hwrite =>
          cases hrun
          exact ⟨rfl, .inr ⟨values, s, _, h, hwrite, rfl⟩⟩
  · rintro ⟨rfl, h | ⟨values, s, problem, h, hwrite, rfl⟩⟩
    · exact h.run_pack output
    · rw [h.run_pack, hwrite]

end FrameLog.Command
