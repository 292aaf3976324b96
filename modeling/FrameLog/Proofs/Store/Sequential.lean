import FrameLog.Proofs.Store.Refinement

/-!
# Reading in order

What a visit is shown and what an iterator hands out are the frames of the range as they are got one by one, though the
table is asked only where the first of them is (`sequential_agrees`).
-/

namespace FrameLog.Store

open Cursor (payloadView)

variable {s : Store} {buffer : Buffer} {log : Log} {start count stop : Nat}

/-- The views are what is got of the frames from `start` on. -/
def Gets (s : Store) (start : Nat) (views : List (View UInt8)) : Prop :=
  ∀ k (h : k < views.length), s.get (start + k) = .ok views[k]

/-- A visit is shown the views in order, each with its number. -/
def Visits (s : Store) (start stop : Nat) (views : List (View UInt8)) : Prop :=
  ∀ (σ : Type) (visit : Nat → View UInt8 → σ → σ) (x : σ),
    s.iterate start stop visit x = .ok ⟨⟩ (views.zipIdx.foldl (fun x (view, step) => visit step view x) x)

/-- However often it is pulled at, the iterator gives the views in order and then nothing, and says how many are left. -/
def Frames.Yields (f : Frames) (views : List (View UInt8)) : Prop :=
  ∀ n, (f.pull n).1 = (views.take n).map (fun view => some (.ok view)) ++ List.replicate (n - views.length) none ∧
    (f.pull n).2.sizeHint = (0, some (views.length - n))

/-- Why a range is turned down. -/
def outside (s : Store) (start stop : Nat) : Refusal :=
  if s.frameCount < stop then .outOfRange stop s.frameCount else .outOfRange start stop

def payloadViews (log : Log) (start count : Nat) : List (View UInt8) :=
  (List.range' start count).map (payloadView Buffer.region log)

theorem length_payloadViews (log : Log) (start count : Nat) : (payloadViews log start count).length = count := by
  rw [payloadViews, List.length_map, List.length_range']

theorem take_payloadViews (log : Log) (start count n : Nat) :
    (payloadViews log start count).take n = payloadViews log start (min n count) := by
  have htake : (List.range' start count).take n = List.range' start (min n count) := by
    apply List.ext_getElem
    · simp
    · intro i hi hi'
      simp
  rw [payloadViews, ← List.map_take, htake, payloadViews]

theorem Frames.Along.yields {f : Frames} (h : Along log start count f) : f.Yields (payloadViews log start count) := by
  intro n
  obtain ⟨g, halong, hpull⟩ := h.pull_eq n
  rw [hpull, take_payloadViews, length_payloadViews, payloadViews, List.map_map, sizeHint, halong.remaining]
  exact ⟨rfl, rfl⟩

namespace Holds

variable (h : Holds s buffer log)
include h

theorem gets (hwithin : start + count ≤ log.length) : s.Gets start (payloadViews log start count) := by
  intro k hk
  rw [length_payloadViews] at hk
  rw [h.get_eq, if_pos (by omega)]
  simp [payloadViews]

theorem visits (hstart : start ≤ stop) (hstop : stop ≤ log.length) :
    s.Visits start stop (payloadViews log start (stop - start)) := by
  intro σ visit x
  rw [h.iterate_eq, if_neg (Nat.not_lt.mpr hstop), if_neg (Nat.not_lt.mpr hstart)]
  rfl

/-- A range within the store is read in order as it is read one by one. -/
theorem reads_within (hstart : start ≤ stop) (hstop : stop ≤ log.length) :
    ∃ views, views.length = stop - start ∧ s.Gets start views ∧ s.Visits start stop views ∧
      ∃ f, s.range start stop = .ok f ∧ f.Yields views := by
  obtain ⟨f, hrange, halong⟩ := h.range_along hstart hstop
  exact ⟨_, length_payloadViews .., h.gets (by omega), h.visits hstart hstop, f, hrange, halong.yields⟩

theorem range_outside (houtside : ¬ (start ≤ stop ∧ stop ≤ log.length)) :
    s.range start stop = refuse (s.outside start stop) := by
  rw [h.range_eq, outside, h.count]
  by_cases hstop : log.length < stop
  · rw [if_pos hstop, if_pos hstop]
  · rw [if_neg hstop, if_neg hstop, if_pos (by omega)]

theorem iterate_outside {σ : Type} (houtside : ¬ (start ≤ stop ∧ stop ≤ log.length))
    (visit : Nat → View UInt8 → σ → σ) (x : σ) :
    s.iterate start stop visit x = .error (.refused (s.outside start stop)) x := by
  simp only [iterate, Action.bind_apply, h.range_outside houtside, Action.lift_refuse_apply]

end Holds

/-- In every store in use that a run can lead to, reading a range in order is reading its frames one by one: a visit is
shown their views, numbered from zero, and an iterator hands them out. A range that is not within the store is turned
down before anything is shown. All frames in order are the range from the first to the last. -/
theorem sequential_agrees (h : Reachable s) (hlive : s.isDisposed = false) (start stop : Nat) :
    (start ≤ stop ∧ stop ≤ s.frameCount → ∃ views, views.length = stop - start ∧ s.Gets start views ∧
      s.Visits start stop views ∧ ∃ f, s.range start stop = .ok f ∧ f.Yields views) ∧
    (¬ (start ≤ stop ∧ stop ≤ s.frameCount) → s.range start stop = refuse (s.outside start stop) ∧
      ∀ (σ : Type) (visit : Nat → View UInt8 → σ → σ) (x : σ),
        s.iterate start stop visit x = .error (.refused (s.outside start stop)) x) ∧
    ∃ views, views.length = s.frameCount ∧ s.Gets 0 views ∧
      ∃ f, s.frames = .ok f ∧ s.range 0 s.frameCount = .ok f ∧ f.Yields views := by
  obtain ⟨buffer, log, hholds⟩ := h.holds hlive
  rw [hholds.count]
  refine ⟨fun hwithin => hholds.reads_within hwithin.1 hwithin.2, fun houtside => ?_, ?_⟩
  · exact ⟨hholds.range_outside houtside, fun σ => hholds.iterate_outside houtside⟩
  · obtain ⟨views, hlength, hgets, -, f, hrange, hyields⟩ := hholds.reads_within (Nat.zero_le _) (Nat.le_refl _)
    exact ⟨views, hlength, hgets, f, by rw [frames, hholds.count, hrange], hrange, hyields⟩

/-- Three frames, two to a bucket: the last two are read across the end of the first bucket. -/
theorem sequential_agrees_across_buckets :
    let first := ofParts ⟨Bytes.zeros 16, .fixed⟩ 2 .fresh 0 0
    let s := (run [⟨fun _ => false, .extend [[7], [], [8, 9]]⟩] first).2
    (∃ views, views.length = 2 ∧ s.Gets 1 views ∧ s.Visits 1 3 views) ∧
      s.range 2 4 = refuse (.outOfRange 4 3) ∧ s.range 2 1 = refuse (.outOfRange 2 1) := by
  intro first s
  have hbuild : Origin.build (fun _ => false) (.ofBuffer ⟨Bytes.zeros 16, .fixed⟩ 2 (by decide)) = .ok first := rfl
  have hreachable : Reachable s := ⟨_, _, first, _, hbuild, rfl⟩
  have hlive : s.isDisposed = false := by decide +kernel
  have hcount : s.frameCount = 3 := by decide +kernel
  obtain ⟨views, hlength, hgets, hvisits, -⟩ := (sequential_agrees hreachable hlive 1 3).1 (by rw [hcount]; decide)
  have hpast := (sequential_agrees hreachable hlive 2 4).2.1 (by rw [hcount]; decide)
  have hinverted := (sequential_agrees hreachable hlive 2 1).2.1 (by decide)
  rw [outside, hcount] at hpast hinverted
  exact ⟨⟨views, hlength, hgets, hvisits⟩, hpast.1, hinverted.1⟩

end FrameLog.Store
