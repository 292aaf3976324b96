import FrameLog.Command.Pack
import FrameLog.Proofs.Command.Machine
import FrameLog.Proofs.Store.Failing

/-!
# What packing comes to

Packing reads, fills a store, and writes last: as long as it reads and fills, the machine stays as it is
(`Machine.run_pack`). A store that is filled holds all the payloads (`filled_eq_ok`), and its bytes are what is written
(`Machine.run_save`).
-/

namespace FrameLog.Command

open Store (Holds Takes)

variable {alloc : Allocator} {machine : Machine} {input output : String} {format : Format} {options : Options}
  {s t : Store} {buffer : Buffer} {log : Log} {index : Nat} {payloads : List Bytes}

/-! ## What is read -/

namespace Reads

theorem readConfig (path : String) : Reads (Options.readConfig path) := by
  refine bind (readFile _ path) fun bytes => ?_
  cases Utf8.decode bytes with
  | error e => exact fun _ => rfl
  | ok text => cases h : Json.readAll Config.readJson text <;> simp only [h] <;> exact fun _ => rfl

theorem base (options : Options) : Reads options.base := by
  rw [Options.base]
  split
  · exact fun _ => rfl
  · exact readConfig _

theorem resolve (options : Options) : Reads options.resolve :=
  bind (base options) fun _ => bind (fun _ => rfl) fun _ _ => rfl

theorem readText (path : String) : Reads (readText path) := by
  refine bind (readSource path) fun bytes => ?_
  cases Utf8.decode bytes <;> exact fun _ => rfl

end Reads

/-- What the options make of the base is the configuration, if it is valid. -/
theorem ask_resolve (machine : Machine) (options : Options) : machine.ask options.resolve = (do
    let base ← machine.ask options.base
    atStage .validateConfig (options.merge base).validate
    return options.merge base) := by
  simp only [Options.resolve, (Reads.base options).ask_bind, Machine.ask_lift_bind]
  rfl

/-! ## Filling a store -/

theorem atStage_eq_ok {α : Type} {stage : Stage} {x : Outcome α} {a : α} : atStage stage x = .ok a ↔ x = .ok a := by
  unfold atStage
  split <;> simp

theorem atStage_eq_error {α : Type} {stage : Stage} {x : Outcome α} {e : Stop} : atStage stage x = .error e ↔
    (∃ r, x = refuse r ∧ e = .failed stage (.store r)) ∨ ∃ f, x = fail f ∧ e = .fault f := by
  match x with
  | .ok a => simp [atStage, refuse, fail]
  | .error (.refused r) => simp [atStage, refuse, fail, eq_comm]
  | .error (.fault f) => simp [atStage, refuse, fail, eq_comm]

/-- Once some payloads have gone in, the others are appended to what they have made. -/
theorem appendAll_takes {taken : List Bytes} (h : Takes alloc s taken t) (index : Nat) (rest : List Bytes) :
    appendAll alloc index (taken ++ rest) s = appendAll alloc (index + taken.length) rest t := by
  induction h generalizing index with
  | nil s => rfl
  | @cons s t u payload taken bucket first _ ih =>
      have hnumber : index + (payload :: taken).length = index + 1 + taken.length := by
        rw [List.length_cons]
        omega
      rw [List.cons_append, appendAll, first, hnumber]
      exact ih (index + 1)

theorem appendAll_eq_ok : appendAll alloc index payloads s = .ok t ↔ Takes alloc s payloads t := by
  constructor
  · intro h
    induction payloads generalizing index s with
    | nil =>
        cases h
        exact .nil _
    | cons payload rest ih =>
        rw [appendAll] at h
        cases happend : Store.append alloc payload s with
        | error e u =>
            rw [happend] at h
            cases atStage_eq_ok.mp h
        | ok bucket u =>
            rw [happend] at h
            exact .cons happend (ih h)
  · intro h
    have hall := appendAll_takes h index []
    rwa [List.append_nil] at hall

theorem appendAll_eq_error (h : Holds s buffer log) {e : Stop} : appendAll alloc index payloads s = .error e ↔
    ∃ taken payload rest t r, payloads = taken ++ payload :: rest ∧ Takes alloc s taken t ∧
      Store.append alloc payload t = .error (.refused r) t ∧
      e = .failed (.appendFrame (index + taken.length)) (.store r) := by
  constructor
  · intro hfail
    rcases h.takes_or_refused alloc payloads with ⟨t, hall⟩ | ⟨taken, payload, rest, t, r, rfl, htakes, hlast⟩
    · cases (appendAll_eq_ok.mpr hall).symm.trans hfail
    · rw [appendAll_takes htakes, appendAll, hlast] at hfail
      cases hfail
      exact ⟨taken, payload, rest, t, r, rfl, htakes, hlast, rfl⟩
  · rintro ⟨taken, payload, rest, t, r, rfl, htakes, hlast, rfl⟩
    rw [appendAll_takes htakes, appendAll, hlast]
    rfl

/-- The store that packing fills before it writes anything. -/
def filled (alloc : Allocator) (machine : Machine) (input : String) (format : Format) (options : Options) :
    Except Stop Store := do
  let config ← machine.ask options.resolve
  let values ← parsePayloads (← machine.ask (readText input)) format
  let empty ← atStage .createStore (Store.create alloc config)
  appendAll alloc 0 (values.map payload) empty

theorem filled_eq_ok (h : filled alloc machine input format options = .ok s) :
    ∃ text values buffer, machine.ask (readText input) = .ok text ∧ parsePayloads text format = .ok values ∧
      Holds s buffer (values.map payload) := by
  obtain ⟨config, -, h⟩ := bind_eq_ok.mp h
  obtain ⟨text, htext, h⟩ := bind_eq_ok.mp h
  obtain ⟨values, hvalues, h⟩ := bind_eq_ok.mp h
  obtain ⟨empty, hcreate, h⟩ := bind_eq_ok.mp h
  obtain ⟨buffer, hholds⟩ := (appendAll_eq_ok.mp h).holds (Store.create_holds (atStage_eq_ok.mp hcreate))
  exact ⟨text, values, buffer, htext, hvalues, hholds⟩

/-! ## Writing the file -/

/-- What is left to do with a store that is filled. -/
def save {m : Type → Type} [Monad m] [Host m] (output : String) (s : Store) : Run m Stats := do
  let bytes ← atStage .readBack s.written
  request (.writeOutput output) (Host.writeFile output bytes)
  return s.stats

theorem Machine.run_pack (alloc : Allocator) (machine : Machine) (input output : String) (format : Format)
    (options : Options) : machine.run (pack alloc input output format options) =
      machine.proceed (filled alloc machine input format options) fun s => machine.run (save output s) := by
  simp only [pack, filled, save, (Reads.resolve options).run_bind, (Reads.readText input).run_bind, run_lift_bind,
    proceed_bind]

theorem Machine.run_save (h : Holds s buffer log) (machine : Machine) (output : String) :
    machine.run (save output s) = match machine.write output log.bytes with
      | .ok after => (.ok s.stats, after)
      | .error problem => (.error (.failed (.writeOutput output) (.file problem)), machine) := by
  rw [save, h.written_eq, run_lift_bind]
  simp only [proceed, atStage, run_bind, run_writeFile]
  cases machine.write output log.bytes <;> rfl

end FrameLog.Command
