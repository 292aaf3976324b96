import Mathlib
import FrameLog.Command.Failure
import FrameLog.Command.Machine

/-!
# Runs on a machine held in memory

A run comes to an answer and leaves a machine. Runs that only read leave the machine as it was, so that what follows
them starts where they did (`Reads.run_bind`). What is written to a file is read back from it (`Machine.read_write`),
and at every other place there is what there was (`Machine.write_place`): outside the directory, if the path is relative
and never goes up (`Machine.write_inside`).
-/

namespace FrameLog.Command

variable {α β : Type} {machine after : Machine} {place other : Place} {entry : Entry} {path : String} {content : Bytes}

namespace Machine

/-- The answer of a run, and the machine that it leaves. -/
def run (machine : Machine) (x : Run (StateM Machine) α) : Except Stop α × Machine := StateT.run (ExceptT.run x) machine

def ask (machine : Machine) (x : Run (StateM Machine) α) : Except Stop α := (machine.run x).1

theorem run_bind (machine : Machine) (x : Run (StateM Machine) α) (f : α → Run (StateM Machine) β) :
    machine.run (x >>= f) = match machine.run x with
      | (.ok a, after) => after.run (f a)
      | (.error e, after) => (.error e, after) := by
  unfold run ExceptT.run StateT.run
  simp only [bind, ExceptT.bind, ExceptT.mk, StateT.bind, ExceptT.bindCont]
  cases x machine with
  | mk answer after => cases answer <;> rfl

@[simp] theorem run_pure (machine : Machine) (a : α) : machine.run (pure a) = (.ok a, machine) := rfl

@[simp] theorem run_lift (machine : Machine) (x : Except Stop α) :
    machine.run (liftM x : Run (StateM Machine) α) = (x, machine) := rfl

/-- The machine with more text printed. -/
def printed (machine : Machine) (text : List Char) : Machine := { machine with output := machine.output ++ text }

theorem run_print (machine : Machine) (text : List Char) :
    machine.run (print text) = (.ok ⟨⟩, machine.printed text) := rfl

/-- A run asks the machine for one thing at a time; where it is denied it, it stops. -/
theorem run_request (machine : Machine) (stage : Stage) (x : StateM Machine (Except FileProblem α)) :
    machine.run (request stage x) =
      ((x machine).1.mapError fun problem => .failed stage (.file problem), (x machine).2) := by
  unfold run ExceptT.run StateT.run request
  simp only [bind, StateT.bind, ExceptT.mk]
  cases x machine with
  | mk answer after => cases answer <;> rfl

theorem run_readFile (machine : Machine) (stage : Stage) (path : String) :
    machine.run (request stage (Host.readFile path)) =
      ((machine.read path).mapError fun problem => .failed stage (.file problem), machine) :=
  run_request ..

theorem run_writeFile (machine : Machine) (stage : Stage) (path : String) (content : Bytes) :
    machine.run (request stage (Host.writeFile path content)) = match machine.write path content with
      | .ok after => (.ok ⟨⟩, after)
      | .error problem => (.error (.failed stage (.file problem)), machine) := by
  rw [run_request]
  simp only [Host.writeFile, bind, StateT.bind, get, getThe, MonadStateOf.get, StateT.get, pure]
  cases machine.write path content <;> rfl

end Machine

/-! ## Reading -/

/-- Goes on with what has been read, or stops, the machine being the same. -/
def Machine.proceed (machine : Machine) (x : Except Stop α) (f : α → Except Stop β × Machine) :
    Except Stop β × Machine :=
  match x with
  | .ok a => f a
  | .error e => (.error e, machine)

@[simp] theorem Machine.proceed_ok (machine : Machine) (a : α) (f : α → Except Stop β × Machine) :
    machine.proceed (.ok a) f = f a := rfl

theorem Machine.proceed_bind {γ : Type} (machine : Machine) (x : Except Stop α) (f : α → Except Stop β)
    (g : β → Except Stop γ × Machine) :
    machine.proceed (x >>= f) g = machine.proceed x fun a => machine.proceed (f a) g := by
  cases x <;> rfl

theorem Machine.run_lift_bind (machine : Machine) (x : Except Stop α) (f : α → Run (StateM Machine) β) :
    machine.run (liftM x >>= f) = machine.proceed x fun a => machine.run (f a) := by
  rw [run_bind, run_lift]
  cases x <;> rfl

theorem Machine.ask_lift_bind (machine : Machine) (x : Except Stop α) (f : α → Run (StateM Machine) β) :
    machine.ask (liftM x >>= f) = x >>= fun a => machine.ask (f a) := by
  rw [ask, run_lift_bind]
  cases x <;> rfl

/-- The run leaves the machine as it is. -/
def Reads (x : Run (StateM Machine) α) : Prop := ∀ machine : Machine, machine.run x = (machine.ask x, machine)

namespace Reads

variable {x : Run (StateM Machine) α} {f : α → Run (StateM Machine) β}

theorem run_bind (h : Reads x) (machine : Machine) (f : α → Run (StateM Machine) β) :
    machine.run (x >>= f) = machine.proceed (machine.ask x) fun a => machine.run (f a) := by
  rw [Machine.run_bind, h machine]
  cases machine.ask x <;> rfl

theorem ask_bind (h : Reads x) (machine : Machine) (f : α → Run (StateM Machine) β) :
    machine.ask (x >>= f) = machine.ask x >>= fun a => machine.ask (f a) := by
  rw [Machine.ask, h.run_bind]
  cases machine.ask x <;> rfl

theorem bind (h : Reads x) (h' : ∀ a, Reads (f a)) : Reads (x >>= f) := by
  intro machine
  rw [Machine.ask, h.run_bind]
  cases machine.ask x with
  | error e => rfl
  | ok a => exact h' a machine

theorem readFile (stage : Stage) (path : String) :
    Reads (request stage (Host.readFile path) : Run (StateM Machine) Bytes) := by
  intro machine
  rw [Machine.ask, Machine.run_readFile]

theorem readSource (path : String) : Reads (readSource path) := by
  rw [Command.readSource]
  split
  · exact fun _ => rfl
  · exact readFile _ path

end Reads

theorem Machine.ask_readSource (hfile : path ≠ "-") (h : machine.read path = .ok content) :
    machine.ask (readSource path) = .ok content := by
  rw [ask, readSource, if_neg hfile, run_readFile, h]
  rfl

/-! ## Writing -/

namespace Machine

/-- What is listed for a place. -/
def listed (entries : List (Place × Entry)) (place : Place) : Option Entry :=
  (entries.find? (·.1 = place)).map Prod.snd

theorem lookup_eq (machine : Machine) (place : Place) : machine.lookup place =
    if place.isAnchor then some .directory
    else (listed machine.entries place).or
      (if machine.entries.any fun x => place.isPrefixOf x.1 then some .directory else none) := by
  rw [lookup, listed]
  cases machine.entries.find? (·.1 = place) <;> rfl

theorem listed_put (place other : Place) (entry : Entry) (entries : List (Place × Entry)) :
    listed (put place entry entries) other = if place = other then some entry else listed entries other := by
  induction entries with
  | nil => by_cases h : place = other <;> simp [listed, put, h]
  | cons first rest ih =>
      obtain ⟨first, old⟩ := first
      rw [put]
      split
      · next hfirst =>
          subst hfirst
          by_cases h : first = other <;> simp [listed, h]
      · next hfirst =>
          by_cases h : first = other
          · subst h
            simp [listed, Ne.symm hfirst]
          · simpa [listed, h] using ih

theorem any_put (p : Place → Bool) (place : Place) (entry : Entry) (entries : List (Place × Entry)) :
    (put place entry entries).any (fun x => p x.1) = (p place || entries.any fun x => p x.1) := by
  induction entries with
  | nil => simp [put]
  | cons first rest ih =>
      obtain ⟨first, old⟩ := first
      rw [put]
      split
      · next hfirst => simp [hfirst]
      · rw [List.any_cons, ih, List.any_cons]
        exact Bool.or_left_comm ..

/-- The machine with an entry at a place, in place of one that may be there. -/
def withEntry (machine : Machine) (place : Place) (entry : Entry) : Machine :=
  { machine with entries := put place entry machine.entries }

theorem lookup_withEntry (h : place.isAnchor = false) : (machine.withEntry place entry).lookup place = some entry := by
  simp [lookup_eq, withEntry, h, listed_put]

/-- A directory stays one, as long as the entry goes elsewhere. -/
theorem directory_withEntry (hne : place ≠ other) (h : machine.lookup other = some .directory) :
    (machine.withEntry place entry).lookup other = some .directory := by
  rw [lookup_eq] at h ⊢
  split
  · rfl
  · next hanchor =>
    rw [if_neg hanchor] at h
    rw [withEntry, listed_put, if_neg hne, any_put]
    cases hlisted : listed machine.entries other with
    | some old => rwa [hlisted] at h
    | none =>
        rw [hlisted] at h
        have hany : (machine.entries.any fun x => other.isPrefixOf x.1) = true := by simpa using h
        rw [hany, Bool.or_true]
        rfl

theorem requireDirectory_eq_ok : machine.requireDirectory place = .ok () ↔ machine.lookup place = some .directory := by
  unfold requireDirectory
  split <;> simp_all

/-- A walk ends where it did if the directories on its way are still there. -/
theorem walk_of_directories (h : ∀ place, machine.lookup place = some .directory → after.lookup place = some .directory)
    {steps : List Step} (hwalk : machine.walk place steps = .ok other) : after.walk place steps = .ok other := by
  induction steps generalizing place with
  | nil => exact hwalk
  | cons step rest ih =>
      rw [walk] at hwalk ⊢
      obtain ⟨⟨⟩, hdirectory, hwalk⟩ := bind_eq_ok.mp hwalk
      obtain ⟨next, hstep, hwalk⟩ := bind_eq_ok.mp hwalk
      rw [requireDirectory_eq_ok.mpr (h _ (requireDirectory_eq_ok.mp hdirectory)), ok_bind, hstep, ok_bind, ih hwalk]

theorem target_eq_ok {p : Path} (h : machine.target p = .ok place) : p.trailingSlash = false ∧
    machine.walk (Place.start p) p.steps = .ok place ∧ machine.lookup place ≠ some .directory := by
  rw [target] at h
  cases hslash : p.trailingSlash with
  | true =>
      rw [if_pos hslash] at h
      obtain ⟨parent, -, h⟩ := bind_eq_ok.mp h
      obtain ⟨⟨⟩, -, h⟩ := bind_eq_ok.mp h
      cases h
  | false =>
      rw [if_neg (by rw [hslash]; exact Bool.false_ne_true)] at h
      obtain ⟨found, hwalk, h⟩ := bind_eq_ok.mp h
      split at h
      · cases h
      · next hfree =>
          cases h
          exact ⟨rfl, hwalk, hfree⟩

/-- Every place on the way to this one is a directory. -/
def Leads (machine : Machine) (place : Place) : Prop :=
  ∀ other, other <+: place → other ≠ place → machine.lookup other = some .directory

theorem leads_concat (h : machine.Leads place) (hdirectory : machine.lookup place = some .directory) (name : String) :
    machine.Leads (place ++ [name]) := by
  intro other hother hne
  rcases List.prefix_concat_iff.mp hother with rfl | hother
  · exact absurd rfl hne
  · by_cases hplace : other = place
    · rwa [hplace]
    · exact h other hother hplace

theorem leads_up (h : machine.Leads place) (hdirectory : machine.lookup place = some .directory) :
    machine.Leads place.up := by
  unfold Place.up
  split
  · exact leads_concat h hdirectory ".."
  · exact leads_concat h hdirectory ".."
  · exact h
  · next hlast =>
      intro other hother _
      refine h other (hother.trans (List.dropLast_prefix place)) ?_
      rintro rfl
      have hlength := hother.length_le
      have hsome := List.length_pos_of_mem (List.mem_of_getLast? hlast)
      rw [List.length_dropLast] at hlength
      omega

theorem leads_walk {steps : List Step} (h : machine.Leads place) (hwalk : machine.walk place steps = .ok other) :
    machine.Leads other := by
  induction steps generalizing place with
  | nil =>
      cases hwalk
      exact h
  | cons step rest ih =>
      rw [walk] at hwalk
      obtain ⟨⟨⟩, hdirectory, hwalk⟩ := bind_eq_ok.mp hwalk
      obtain ⟨next, hstep, hwalk⟩ := bind_eq_ok.mp hwalk
      have hdirectory := requireDirectory_eq_ok.mp hdirectory
      refine ih ?_ hwalk
      cases step with
      | stay =>
          cases hstep
          exact h
      | up =>
          cases hstep
          exact leads_up h hdirectory
      | enter name =>
          rw [Place.step] at hstep
          split at hstep
          · cases hstep
          · cases hstep
            exact leads_concat h hdirectory name

theorem leads_start (machine : Machine) (p : Path) : machine.Leads (Place.start p) := by
  have hanchor : Place.isAnchor (Place.start p) := by
    rw [Place.start]
    split <;> decide
  intro other hother _
  rw [lookup, if_pos]
  rw [Place.isAnchor, List.all_eq_true] at hanchor ⊢
  exact fun name hname => hanchor name (hother.subset hname)

/-- An entry at the end of a way makes no difference elsewhere. -/
theorem lookup_withEntry_of_ne (h : machine.Leads place) (hne : other ≠ place) :
    (machine.withEntry place entry).lookup other = machine.lookup other := by
  by_cases hprefix : other <+: place
  · have hdirectory := h other hprefix hne
    rw [directory_withEntry hne.symm hdirectory, hdirectory]
  · have hapart : other.isPrefixOf place = false :=
      Bool.eq_false_iff.mpr fun hmore => hprefix (List.isPrefixOf_iff_prefix.mp hmore)
    rw [lookup_eq, lookup_eq, withEntry, listed_put, if_neg hne.symm, any_put, hapart, Bool.false_or]

/-! What is written is read back from there, and everything else is as it was. -/

theorem write_eq_ok (h : machine.write path content = .ok after) : ∃ p place, Path.ofString path = .ok p ∧
    machine.target p = .ok place ∧ after = machine.withEntry place (.file content) := by
  rw [write] at h
  obtain ⟨p, hpath, h⟩ := bind_eq_ok.mp h
  obtain ⟨place, htarget, h⟩ := bind_eq_ok.mp h
  exact ⟨p, place, hpath, htarget, (Except.ok.inj h).symm⟩

theorem isAnchor_target {p : Path} (h : machine.target p = .ok place) : place.isAnchor = false := by
  obtain ⟨-, -, hfree⟩ := target_eq_ok h
  by_contra hanchor
  exact hfree (by rw [lookup, if_pos (Bool.not_eq_false _ ▸ hanchor)])

theorem read_write (h : machine.write path content = .ok after) : after.read path = .ok content := by
  obtain ⟨p, place, hpath, htarget, rfl⟩ := write_eq_ok h
  obtain ⟨hslash, hwalk, hfree⟩ := target_eq_ok htarget
  -- The way there leads through directories only, none of which is the file.
  have hwalk' : (machine.withEntry place (.file content)).walk (Place.start p) p.steps = .ok place := by
    refine walk_of_directories (fun other hother => directory_withEntry ?_ hother) hwalk
    rintro rfl
    exact hfree hother
  rw [read, hpath, ok_bind, hwalk', ok_bind, hslash, lookup_withEntry (isAnchor_target htarget)]
  rfl

end Machine

/-! ## What a path cannot leave -/

/-- The step stays where it is, or leads to a name that means no place of its own. -/
def Step.Descends : Step → Prop
  | .stay => True
  | .up => False
  | .enter name => Place.isAnchorName name = false

theorem Step.ofName?_eq_enter {text name : String} (h : Step.ofName? text = some (.enter name)) :
    name = text ∧ name ≠ ".." := by
  unfold Step.ofName? at h
  split at h <;> cases h
  · next hdots => exact ⟨rfl, hdots⟩

theorem forall_of_mem_splitOnPPrepend {p : Char → Bool} {text piece front : List Char}
    (hfront : ∀ c ∈ front, p c = false) (h : piece ∈ List.splitOnPPrepend p text front) : ∀ c ∈ piece, p c = false := by
  induction text generalizing front with
  | nil =>
      obtain rfl := List.mem_singleton.mp h
      exact fun c hc => hfront c (List.mem_reverse.mp hc)
  | cons first rest ih =>
      rw [List.splitOnPPrepend_cons_eq_if] at h
      split at h
      · rcases List.mem_cons.mp h with rfl | h
        · exact fun c hc => hfront c (List.mem_reverse.mp hc)
        · exact ih (by simp) h
      · next hfirst => exact ih (List.forall_mem_cons.mpr ⟨Bool.eq_false_iff.mpr hfirst, hfront⟩) h

/-- No name in a path has a slash, and the one of two dots is a step up. -/
theorem Path.descends {p : Path} (h : Path.ofString path = .ok p) (hup : .up ∉ p.steps) {step : Step}
    (hstep : step ∈ p.steps) : step.Descends := by
  have hsteps : p.steps = (path.toList.splitOn '/').filterMap fun name => Step.ofName? (.ofList name) := by
    rw [Path.ofString] at h
    split_ifs at h
    rw [← Except.ok.inj h]
  cases step with
  | stay => trivial
  | up => exact hup hstep
  | enter name =>
      obtain ⟨piece, hpiece, hname⟩ := List.mem_filterMap.mp (hsteps ▸ hstep)
      obtain ⟨rfl, hdots⟩ := Step.ofName?_eq_enter hname
      have hslash := forall_of_mem_splitOnPPrepend (List.forall_mem_nil _) hpiece
      rw [Step.Descends, Place.isAnchorName, Bool.or_eq_false_iff, decide_eq_false_iff_not, decide_eq_false_iff_not]
      refine ⟨hdots, fun hone => ?_⟩
      rw [← String.toList_inj, String.toList_ofList] at hone
      subst hone
      cases hslash '/' (List.mem_singleton.mpr rfl)

namespace Machine

theorem inside_walk {steps : List Step} (hsteps : ∀ step ∈ steps, step.Descends)
    (hplace : place.any Place.isAnchorName = false) (hwalk : machine.walk place steps = .ok other) :
    other.any Place.isAnchorName = false := by
  induction steps generalizing place with
  | nil =>
      cases hwalk
      exact hplace
  | cons step rest ih =>
      obtain ⟨hstep, hrest⟩ := List.forall_mem_cons.mp hsteps
      rw [walk] at hwalk
      obtain ⟨⟨⟩, -, hwalk⟩ := bind_eq_ok.mp hwalk
      obtain ⟨next, hnext, hwalk⟩ := bind_eq_ok.mp hwalk
      refine ih hrest ?_ hwalk
      cases step with
      | stay =>
          cases hnext
          exact hplace
      | up => exact hstep.elim
      | enter name =>
          rw [Place.step] at hnext
          split at hnext
          · cases hnext
          · cases hnext
            rw [List.any_append, hplace, List.any_cons, hstep]
            rfl

/-- What is written under a relative path that never goes up changes nothing outside the directory. -/
theorem write_inside {p : Path} (h : machine.write path content = .ok after) (hpath : Path.ofString path = .ok p)
    (hrelative : p.absolute = false) (hup : .up ∉ p.steps) :
    ∀ other : Place, other.isInside = false → after.lookup other = machine.lookup other := by
  obtain ⟨p', place, hpath', htarget, rfl⟩ := write_eq_ok h
  cases hpath.symm.trans hpath'
  obtain ⟨-, hwalk, -⟩ := target_eq_ok htarget
  have hleads := leads_walk (leads_start machine p) hwalk
  rw [Place.start, if_neg (by rw [hrelative]; exact Bool.false_ne_true)] at hwalk
  have hnames := inside_walk (fun step => Path.descends hpath hup) rfl hwalk
  intro other houtside
  refine lookup_withEntry_of_ne hleads ?_
  rintro rfl
  cases other with
  | nil => cases isAnchor_target htarget
  | cons name rest => simp [Place.isInside, hnames] at houtside

end Machine
end FrameLog.Command
