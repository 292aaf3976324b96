import FrameLog.Proofs.Command.AllOrNothing

/-!
# The number of frames that are expected

A configuration says how many frames to expect, and room for their buckets is reserved before there are any. If the
room is granted, the number makes no difference to the store, nor to what packing does; if it is not, that is a fault,
and packing comes to no other (`expectedFrames_unobservable`).
-/

namespace FrameLog

variable {α : Type} {alloc : Allocator} {n : Nat}

namespace Command

variable {machine : Machine} {path path' input output : String} {format : Format} {options : Options} {base : Config}

/-! ## Faults of packing -/

/-- What is computed comes to a fault. -/
def Faults (x : Except Stop α) : Prop := ∃ f, x = .error (.fault f)

/-- Everything is read, a buffer is there, and then room for the buckets is refused. -/
theorem filled_faults : Faults (filled alloc machine input format options) ↔
    ∃ config text values, machine.ask options.resolve = .ok config ∧ machine.ask (readText input) = .ok text ∧
      parsePayloads text format = .ok values ∧ (∃ buffer, config.buffer alloc = .ok buffer) ∧
      ¬ config.Reserves alloc := by
  constructor
  · rintro ⟨f, h⟩
    -- Every other stage fails with a cause of its own.
    cases filled_eq_error.mp h with
    | configuration hunresolved =>
        cases hunresolved with
        | start hnone => cases hnone
    | payloads _ _ _ hunparsed => cases hunparsed
    | room hprepared hfault =>
        obtain ⟨hconfig, text, htext, hvalues⟩ := prepared_iff.mp hprepared
        exact ⟨_, text, _, hconfig, htext, hvalues, Store.create_fault.mp ⟨f, hfault⟩⟩
  · rintro ⟨config, text, values, hconfig, htext, hvalues, hroom⟩
    obtain ⟨f, hfault⟩ := Store.create_fault.mpr hroom
    exact ⟨f, filled_eq_error.mpr (.room (prepared_iff.mpr ⟨hconfig, text, htext, hvalues⟩) hfault)⟩

/-- Saving a store that is filled comes to no fault, so a fault is one of filling it. -/
theorem pack_faults : Faults (machine.ask (pack alloc input output format options)) ↔
    Faults (filled alloc machine input format options) := by
  constructor
  · rintro ⟨f, h⟩
    obtain ⟨-, hunfilled | ⟨values, s, problem, -, -, hstage⟩⟩ := run_pack_eq_error.mp (Prod.ext h rfl)
    · exact ⟨f, filled_eq_error.mpr hunfilled⟩
    · cases hstage
  · rintro ⟨f, h⟩
    exact ⟨f, congrArg Prod.fst ((filled_eq_error.mp h).run_pack output)⟩

/-! ## Files that expect different numbers of frames -/

theorem pack_expecting (hbase : machine.ask (Options.readConfig path) = .ok base)
    (hbase' : machine.ask (Options.readConfig path') = .ok (base.expecting n))
    (h : (options.merge base).Reserves alloc) (h' : ((options.merge base).expecting n).Reserves alloc) :
    machine.run (pack alloc input output format { options with config := some path' }) =
      machine.run (pack alloc input output format { options with config := some path }) := by
  have hread : machine.ask { options with config := some path }.resolve = (do
      atStage .validateConfig (options.merge base).validate
      return options.merge base) := by
    rw [ask_resolve, Options.base, hbase]
    rfl
  have hread' : machine.ask { options with config := some path' }.resolve = (do
      atStage .validateConfig (options.merge base).validate
      return (options.merge base).expecting n) := by
    rw [ask_resolve, Options.base, hbase']
    rfl
  rw [Machine.run_pack, Machine.run_pack, filled, filled, hread, hread']
  cases atStage .validateConfig (options.merge base).validate with
  | error e => rfl
  | ok _ => simp only [ok_bind, pure_eq_ok, Store.create_expecting h h']

/-- The number of frames to expect is seen in no outcome but a fault. If room for the buckets is granted for two
numbers, what is created is the same, and so is what packing does with a file that says the one and a file that says
the other. A configuration is turned down for the same reason whatever the number. There is a fault just where a valid
configuration has its buffer and room for the buckets is refused; packing meets it having read all payloads. -/
theorem expectedFrames_unobservable (alloc : Allocator) :
    (∀ c n, Config.Reserves alloc c → (c.expecting n).Reserves alloc →
      Store.create alloc (c.expecting n) = Store.create alloc c) ∧
    (∀ c n r, Store.create alloc (c.expecting n) = refuse r ↔ Store.create alloc c = refuse r) ∧
    (∀ c, (∃ f, Store.create alloc c = fail f) ↔ (∃ buffer, c.buffer alloc = .ok buffer) ∧ ¬ c.Reserves alloc) ∧
    (∀ (machine : Machine) path path' base n, machine.ask (Options.readConfig path) = .ok base →
      machine.ask (Options.readConfig path') = .ok (base.expecting n) → ∀ options : Options,
        (options.merge base).Reserves alloc → ((options.merge base).expecting n).Reserves alloc →
        ∀ input output format, machine.run (pack alloc input output format { options with config := some path' }) =
          machine.run (pack alloc input output format { options with config := some path })) ∧
    (∀ (machine : Machine) input output format options,
      Faults (machine.ask (pack alloc input output format options)) ↔
        ∃ config text values, machine.ask options.resolve = .ok config ∧ machine.ask (readText input) = .ok text ∧
          parsePayloads text format = .ok values ∧ (∃ buffer, config.buffer alloc = .ok buffer) ∧
          ¬ config.Reserves alloc) := by
  refine ⟨fun c n => Store.create_expecting, fun c n r => ?_, fun c => Store.create_fault, ?_, ?_⟩
  · have hsame : (c.expecting n).buffer alloc = c.buffer alloc := rfl
    rw [Store.create_refused, Store.create_refused, hsame]
  · intro machine path path' base n hbase hbase' options h h' input output format
    exact pack_expecting hbase hbase' h h'
  · intro machine input output format options
    exact pack_faults.trans filled_faults

/-- The largest number there is asks for more room than can be addressed. -/
theorem expectedFrames_unobservable_largest :
    let c : Config := { bucketSize := 1, initialCapacity := 8 }
    c.validate = .ok () ∧ (c.expecting Word.limit).validate = .ok () ∧
      Store.create (fun _ => true) c = .ok (Store.ofParts ⟨Bytes.zeros 8, .fixed⟩ 1 .fresh 0 0) ∧
      Store.create (fun _ => true) (c.expecting Word.limit) = fail .capacityOverflow := by
  intro c
  refine ⟨?_, ?_, ?_, ?_⟩ <;> cbv

end Command
end FrameLog
