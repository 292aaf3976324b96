import FrameLog.Proofs.Store.Refinement

/-!
# What a failure leaves

A request that fails has changed nothing, apart from the two that take several steps: these leave what the steps before
the one that failed have done (`failure_exact`).
-/

namespace FrameLog.Store

variable {s t u : Store} {buffer : Buffer} {log : Log} {alloc : Allocator} {payload : Bytes} {payloads : List Bytes}
variable {e : Failure}

/-- An operation of one step, unlike `extend` and a `clear` that asks for another size. -/
def Operation.indivisible : Operation → Bool
  | .extend _ | .clear (some _) => false
  | _ => true

/-- The payloads go in one after another, all of them. -/
inductive Takes (alloc : Allocator) : Store → List Bytes → Store → Prop
  | nil (s : Store) : Takes alloc s [] s
  | cons {s t u : Store} {payload : Bytes} {rest : List Bytes} {bucket : Bucket}
      (first : append alloc payload s = .ok bucket t) (others : Takes alloc t rest u) :
      Takes alloc s (payload :: rest) u

/-! ## One step -/

theorem settle_error {α : Type} {x : EStateM.Result Failure Store α} {value : α → Value}
    (h : (settle value x).1.outcome = .error e) : x = .error e (settle value x).2 := by
  cases x with
  | ok a t => cases h
  | error e' t =>
      cases h
      rfl

theorem Tracks.append_error (h : Tracks log s) (hfail : append alloc payload s = .error e t) : t = s := by
  rcases h with hreleased | ⟨buffer, hholds⟩
  · rw [hreleased.append_eq] at hfail
    cases hfail
    rfl
  · rcases hholds.append_cases alloc payload with ⟨t, c, bucket, happend, -⟩ | ⟨e, happend, -⟩
    · rw [happend] at hfail
      cases hfail
    · rw [happend] at hfail
      cases hfail
      rfl

theorem Tracks.reset_error {clearBuffer : Bool} (h : Tracks log s) (hfail : reset clearBuffer s = .error e t) :
    t = s := by
  rcases h with hreleased | ⟨buffer, hholds⟩
  · rw [hreleased.reset_eq] at hfail
    cases hfail
    rfl
  · rw [hholds.reset_apply] at hfail
    cases hfail

theorem Tracks.clear_error {capacity : Option Nat} (h : Tracks log s) (hfail : clear alloc capacity s = .error e t) :
    if s.isDisposed then t = s else capacity ≠ none ∧ reset false s = .ok ⟨⟩ t ∧ t.buffer = s.buffer := by
  rcases h with hreleased | ⟨buffer, hholds⟩
  · rw [hreleased.clear_eq] at hfail
    cases hfail
    rw [if_pos hreleased.isDisposed_eq]
  · rw [hholds.isDisposed_eq]
    cases capacity with
    | none =>
        rw [hholds.clear_none] at hfail
        cases hfail
    | some size =>
        rw [hholds.clear_some] at hfail
        split at hfail
        · cases hfail
        · cases hfail
          exact ⟨nofun, hholds.reset_apply false, hholds.live.symm⟩

theorem Tracks.perform_error (h : Tracks log s) {request : Request} (hone : request.operation.indivisible)
    (hfail : (request.perform s).1.outcome = .error e) : (request.perform s).2 = s := by
  rcases request with ⟨alloc, operation⟩
  cases operation with
  | append payload => exact h.append_error (settle_error hfail)
  | appendText text => exact h.append_error (settle_error hfail)
  | extend payloads => cases hone
  | reset clearBuffer => exact h.reset_error (settle_error hfail)
  | clear capacity =>
      cases capacity with
      | some size => cases hone
      | none =>
          have hclear := h.clear_error (settle_error hfail)
          split at hclear
          · exact hclear
          · exact absurd rfl hclear.1
  | dispose => cases hfail
  | read reading => rfl

/-! ## Several payloads -/

theorem Takes.holds (htakes : Takes alloc s payloads t) (h : Holds s buffer log) :
    ∃ c, Holds t c (log ++ payloads) := by
  induction htakes generalizing buffer log with
  | nil s => exact ⟨buffer, by rwa [List.append_nil]⟩
  | @cons s t u payload rest bucket first _ ih =>
      rcases h.append_cases alloc payload with ⟨t', c, bucket', happend, hholds, -, -⟩ | ⟨e, happend, -⟩
      · cases first.symm.trans happend
        rw [List.append_cons]
        exact ih hholds
      · cases first.symm.trans happend

theorem Tracks.takes (h : Tracks log s) (htakes : Takes alloc s payloads t) : Tracks (log ++ payloads) t := by
  rcases h with hreleased | ⟨buffer, hholds⟩
  · cases htakes with
    | nil s => exact .inl hreleased
    | cons first _ => cases first.symm.trans (hreleased.append_eq ..)
  · exact .inr (htakes.holds hholds)

theorem extend_error (hfail : extend alloc payloads s = .error e u) : ∃ taken payload rest t,
    payloads = taken ++ payload :: rest ∧ Takes alloc s taken t ∧ append alloc payload t = .error e u := by
  induction payloads generalizing s with
  | nil => cases hfail
  | cons payload rest ih =>
      rw [extend_cons] at hfail
      cases happend : append alloc payload s with
      | error e' t =>
          rw [happend] at hfail
          cases hfail
          exact ⟨[], payload, rest, s, rfl, .nil s, happend⟩
      | ok bucket t =>
          simp only [happend] at hfail
          cases hrest : extend alloc rest t with
          | ok n u' =>
              rw [hrest] at hfail
              cases hfail
          | error e' u' =>
              rw [hrest] at hfail
              cases hfail
              obtain ⟨taken, payload', rest', t', rfl, htakes, hlast⟩ := ih hrest
              exact ⟨payload :: taken, payload', rest', t', rfl, .cons happend htakes, hlast⟩

theorem extend_ok {n : Nat} (hdone : extend alloc payloads s = .ok n u) :
    n = payloads.length ∧ Takes alloc s payloads u := by
  induction payloads generalizing s n with
  | nil =>
      cases hdone
      exact ⟨rfl, .nil _⟩
  | cons payload rest ih =>
      rw [extend_cons] at hdone
      cases happend : append alloc payload s with
      | error e' t =>
          rw [happend] at hdone
          cases hdone
      | ok bucket t =>
          simp only [happend] at hdone
          cases hrest : extend alloc rest t with
          | error e' u' =>
              rw [hrest] at hdone
              cases hdone
          | ok m u' =>
              rw [hrest] at hdone
              cases hdone
              obtain ⟨rfl, htakes⟩ := ih hrest
              exact ⟨rfl, .cons happend htakes⟩

/-- Into a store in use all payloads go, or one is turned down and those before it have gone in. -/
theorem Holds.takes_or_refused (h : Holds s buffer log) (alloc : Allocator) (payloads : List Bytes) :
    (∃ t, Takes alloc s payloads t) ∨ ∃ taken payload rest t r, payloads = taken ++ payload :: rest ∧
      Takes alloc s taken t ∧ append alloc payload t = .error (.refused r) t := by
  cases hextend : extend alloc payloads s with
  | ok n t => exact .inl ⟨t, (extend_ok hextend).2⟩
  | error e u =>
      obtain ⟨taken, payload, rest, t, rfl, htakes, hlast⟩ := extend_error hextend
      obtain ⟨c, hholds⟩ := htakes.holds h
      rcases hholds.append_cases alloc payload with ⟨_, _, _, happend, -⟩ | ⟨e', hrefused, hbenign⟩
      · cases hlast.symm.trans happend
      · match e', hbenign with
        | .refused r, _ => exact .inr ⟨taken, payload, rest, t, r, rfl, htakes, hrefused⟩

/-- No longer beginning of the payloads goes in than what comes before one that is turned down. -/
theorem Takes.longest {taken rest more : List Bytes} (h : Takes alloc s taken t)
    (hfail : append alloc payload t = .error e u) (hmore : more <+: taken ++ payload :: rest) {v : Store}
    (h' : Takes alloc s more v) : more <+: taken := by
  induction h generalizing more with
  | nil s =>
      cases h' with
      | nil s => exact List.prefix_refl []
      | cons first _ =>
          obtain ⟨rfl, -⟩ := List.cons_prefix_cons.mp hmore
          cases first.symm.trans hfail
  | cons first _ ih =>
      cases h' with
      | nil s => exact List.nil_prefix
      | cons first' others =>
          obtain ⟨rfl, hrest⟩ := List.cons_prefix_cons.mp hmore
          cases first.symm.trans first'
          exact List.cons_prefix_cons.mpr ⟨rfl, ih hfail hrest others⟩

/-- In every store that a run can lead to, an operation of one step that fails leaves the store as it was. Appending
several payloads leaves the longest beginning of them that goes in, and says why the next one does not; where none is
turned down, all have gone in. A size that is refused leaves the store empty, with the buffer that it had. -/
theorem failure_exact (h : Reachable s) :
    (∀ (request : Request) e, request.operation.indivisible → (request.perform s).1.outcome = .error e →
      (request.perform s).2 = s) ∧
    (∀ alloc payloads e t, extend alloc payloads s = .error e t → ∃ taken payload rest,
      payloads = taken ++ payload :: rest ∧ Takes alloc s taken t ∧ append alloc payload t = .error e t ∧
      ∀ more u, more <+: payloads → Takes alloc s more u → more <+: taken) ∧
    (∀ alloc payloads n t, extend alloc payloads s = .ok n t → n = payloads.length ∧ Takes alloc s payloads t) ∧
    (∀ alloc size e t, clear alloc (some size) s = .error e t →
      if s.isDisposed then t = s else reset false s = .ok ⟨⟩ t ∧ t.buffer = s.buffer) := by
  obtain ⟨log, htracks⟩ := h.tracks
  refine ⟨fun request e hone hfail => htracks.perform_error hone hfail, ?_, fun _ _ _ _ => extend_ok, ?_⟩
  · intro alloc payloads e t hfail
    obtain ⟨taken, payload, rest, t', hpayloads, htakes, hlast⟩ := extend_error hfail
    obtain rfl := (htracks.takes htakes).append_error hlast
    subst hpayloads
    exact ⟨taken, payload, rest, rfl, htakes, hlast, fun more u hmore => htakes.longest hlast hmore⟩
  · intro alloc size e t hfail
    have hclear := htracks.clear_error hfail
    split at hclear
    · next hdisposed => rwa [if_pos hdisposed]
    · next hlive =>
        rw [if_neg hlive]
        exact hclear.2

/-- In sixteen bytes that may not grow, eight more do not fit behind the first payload. -/
theorem failure_exact_small_buffer :
    let first := ofParts ⟨Bytes.zeros 16, .fixed⟩ 1 .fresh 0 0
    let s := (run [⟨fun _ => false, .append [7]⟩] first).2
    let request : Request := ⟨fun _ => true, .append (Bytes.zeros 8)⟩
    (request.perform s).1.starved = true ∧ (request.perform s).2 = s := by
  intro first s request
  have hbuild : Origin.build (fun _ => false) (.ofBuffer ⟨Bytes.zeros 16, .fixed⟩ 1 (by decide)) = .ok first := rfl
  have hreachable : Reachable s := ⟨_, _, first, _, hbuild, rfl⟩
  have hfull : (request.perform s).1.starved = true := by decide +kernel
  refine ⟨hfull, ?_⟩
  cases houtcome : (request.perform s).1.outcome with
  | ok value =>
      rw [Answer.starved, houtcome] at hfull
      cases hfull
  | error e => exact (failure_exact hreachable).1 request e rfl houtcome

end FrameLog.Store
