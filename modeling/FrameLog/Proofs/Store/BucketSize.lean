import FrameLog.Proofs.Store.Twins

/-!
# The bucket size does not show

The table only shortens the way to a frame: it leads where a walk over all headers before the frame leads, and how many
frames go to a bucket changes no answer that is not about buckets (`bucket_size_unobservable`).
-/

namespace FrameLog.Store

open Log

variable {s t : Store} {buffer : Buffer} {log : Log} {alloc : Allocator}

namespace Origin

/-- The same beginning, with so many frames to a bucket. -/
def withBucketSize (bucketSize : Nat) : Origin → Origin
  | .create config => .create { config with bucketSize }
  | .ofBuffer buffer _ addressable => .ofBuffer buffer bucketSize addressable
  | .adopt buffer dataLength _ addressable => .adopt buffer dataLength bucketSize addressable
  | .ofBytes data config => .ofBytes data { config with bucketSize }

variable {origin : Origin} {p q : Nat}

theorem data_withBucketSize : (origin.withBucketSize p).data = origin.data := by
  cases origin <;> rfl

theorem buffer_withBucketSize : (origin.withBucketSize p).buffer = origin.buffer := by
  cases origin <;> rfl

theorem twins (h : (origin.withBucketSize p).build alloc = .ok s) (h' : (origin.withBucketSize q).build alloc = .ok t) :
    Twins s.bucketSize t.bucketSize s t := by
  obtain ⟨log, hframed, hholds⟩ := Origin.builds h
  obtain ⟨log', hframed', hholds'⟩ := Origin.builds h'
  rw [data_withBucketSize] at hframed hframed'
  rw [buffer_withBucketSize] at hholds hholds'
  -- The data can be read as frames in one way only, however these are put into buckets.
  obtain rfl := hframed.unique hframed'
  exact .holding hholds hholds' rfl rfl rfl rfl

end Origin

theorem Holds.seek_eq_walk (h : Holds s buffer log) {i : Nat} (hi : i < log.length) :
    s.seek i = Cursor.skipMany i ⟨log.bytes, 0⟩ ∧ s.seek i = .ok (Cursor.onFrame log i) := by
  have hwalk := Cursor.skipMany_onFrame h.readable i (i := 0) (by omega)
  rw [Nat.zero_add] at hwalk
  have hseek := h.seek_eq i
  rw [if_pos hi] at hseek
  exact ⟨hseek.trans hwalk.symm, hseek⟩

/-- In every store in use that a run can lead to, seeking frame `i` gets to where a walk over `i` headers from the first
byte gets. Two stores that are made alike but for the bucket size give the same answers in every run, apart from the
buckets, as long as no payload is turned down for the length of its bucket. -/
theorem bucket_size_unobservable :
    (∀ s, Reachable s → s.isDisposed = false → ∀ i < s.frameCount, ∃ data c,
      s.written = .ok data ∧ Cursor.skipMany i ⟨data, 0⟩ = .ok c ∧ s.seek i = .ok c) ∧
    ∀ alloc (origin : Origin) p q s t,
      (origin.withBucketSize p).build alloc = .ok s → (origin.withBucketSize q).build alloc = .ok t →
      ∀ requests, runsWithin requests s → runsWithin requests t →
        (run requests s).1.map Answer.withoutBuckets = (run requests t).1.map Answer.withoutBuckets := by
  constructor
  · intro s hreachable hlive i hi
    obtain ⟨log, htracks⟩ := hreachable.tracks
    obtain ⟨buffer, hholds⟩ := htracks.holds hlive
    obtain ⟨hwalk, hseek⟩ := hholds.seek_eq_walk (hholds.count ▸ hi)
    exact ⟨log.bytes, Cursor.onFrame log i, hholds.written_eq, hwalk.symm.trans hseek, hseek⟩
  · intro alloc origin p q s t hbuild hbuild' requests hwithin hwithin'
    exact ((Origin.twins hbuild hbuild').run (.inr ⟨hwithin, hwithin'⟩)).1

/-- Two frames in one bucket or in two: the second is found at the same place, and the same is read. -/
theorem bucket_size_unobservable_two_frames :
    let one := ofParts ⟨Bytes.zeros 16, .fixed⟩ 1 .fresh 0 0
    let two := ofParts ⟨Bytes.zeros 16, .fixed⟩ 2 .fresh 0 0
    let requests : List Request := [⟨fun _ => false, .extend [[7], [8, 9]]⟩, ⟨fun _ => false, .append [1, 2]⟩,
      ⟨fun _ => false, .read (.get 1)⟩]
    (∃ c, Cursor.skipMany 1 ⟨[1, 0, 0, 0, 7, 2, 0, 0, 0, 8, 9], 0⟩ = .ok c ∧ (run requests one).2.seek 1 = .ok c) ∧
      (run requests one).1.map Answer.withoutBuckets = (run requests two).1.map Answer.withoutBuckets := by
  intro one two requests
  let origin : Origin := .ofBuffer ⟨Bytes.zeros 16, .fixed⟩ 1 (by decide)
  have hone : (origin.withBucketSize 1).build (fun _ => false) = .ok one := rfl
  have htwo : (origin.withBucketSize 2).build (fun _ => false) = .ok two := rfl
  have hreachable : Reachable (run requests one).2 := ⟨_, _, one, requests, hone, rfl⟩
  have hlive : (run requests one).2.isDisposed = false := by decide +kernel
  have hcount : 1 < (run requests one).2.frameCount := by decide +kernel
  have hwritten : (run requests one).2.written = .ok [1, 0, 0, 0, 7, 2, 0, 0, 0, 8, 9] := by decide +kernel
  obtain ⟨data, c, hdata, hwalk, hseek⟩ := bucket_size_unobservable.1 _ hreachable hlive 1 hcount
  cases hdata.symm.trans hwritten
  exact ⟨⟨c, hwalk, hseek⟩, bucket_size_unobservable.2 _ origin 1 2 _ _ hone htwo requests (by decide +kernel)
    (by decide +kernel)⟩

end FrameLog.Store
