import Handheld.Number.Checked
import Handheld.Step
import Handheld.Time

/-!
# Frame times

The number of frames between the recorded instants, their total and the longest of them, in unsigned
64-bit words.

* `start_record_first`: the first instant only sets the reference point.
* `start_record_next`: what every later one adds, and where it stops.
* `record_cases`: what a record that does not stop has done.
* `exists_start_record`: when a record does not stop.
-/

namespace Handheld

/-- Times of the frames so far, in microseconds. -/
structure FrameStats where
  /-- Frames between recorded instants. -/
  frames : UInt64
  /-- The time that they took together. -/
  total : UInt64
  /-- The time that the longest of them took. -/
  worst : UInt64
  /-- The instant recorded last. -/
  last : Option Instant
deriving DecidableEq, Repr

namespace FrameStats

/-- Nothing recorded. -/
def initial : FrameStats := ⟨0, 0, 0, none⟩

instance : Inhabited FrameStats := ⟨initial⟩

/-- Microseconds from an earlier instant to a later one, cut to a word. -/
def micros (now last : Instant) : UInt64 := UInt64.ofNat (now.durationSince last).micros

/-- Record the start of a frame. The frame before it is counted before its time is added, and a sum
that is no word stops the caller there. -/
def record (now : Instant) : Step FrameStats Unit := do
  let s ← get
  match s.last with
  | none => set { s with last := some now }
  | some last =>
    let frames ← Step.ofExcept (Word64.add s.frames 1)
    -- A stop in the next sum leaves the count raised and all else as it was.
    set { s with frames }
    let total ← Step.ofExcept (Word64.add s.total (micros now last))
    set (⟨frames, total, max s.worst (micros now last), some now⟩ : FrameStats)

/-- Mean time of a frame, rounded down; zero before the first. -/
def average (s : FrameStats) : UInt64 := s.total / s.frames

/-- The numbers as they are shown. -/
def text (s : FrameStats) : String :=
  toString s.frames.toNat ++ " frames, avg " ++ toString s.average.toNat ++ "us, worst " ++
    toString s.worst.toNat ++ "us"

/-- A time between two instants is a word. -/
@[simp]
theorem toNat_micros (now last : Instant) : (micros now last).toNat = now.since last := by
  rw [micros, Instant.durationSince, Duration.micros_ofMicros]
  exact UInt64.toNat_ofNat_of_lt' (Nat.lt_of_le_of_lt (Nat.sub_le _ _) now.us.toNat_lt)

/-- The first instant only sets the reference point. -/
theorem start_record_first (now : Instant) {s : FrameStats} (h : s.last = none) :
    (record now).start s = (.ok (), { s with last := some now }) := by
  obtain ⟨frames, total, worst, last⟩ := s
  cases h
  rfl

/-- Every later instant adds the frame that it ends and its time, as far as the sums are words. -/
theorem start_record_next (now : Instant) {s : FrameStats} {last : Instant}
    (h : s.last = some last) :
    (record now).start s =
      match Word64.add s.frames 1, Word64.add s.total (micros now last) with
      | .ok frames, .ok total =>
        (.ok (), ⟨frames, total, max s.worst (micros now last), some now⟩)
      | .ok frames, .error p => (.error (.panic p), { s with frames })
      | .error p, _ => (.error (.panic p), s) := by
  obtain ⟨frames, total, worst, last'⟩ := s
  cases h
  simp only [record, Step.start_bind, Step.start_get]
  cases Word64.add frames 1 with
  | error p => rfl
  | ok frames' =>
    simp only [Step.start_ofExcept_ok, Step.start_set]
    cases Word64.add total (micros now last) <;> rfl

/-- What a record that does not stop has done. -/
theorem record_cases {now : Instant} {s s' : FrameStats}
    (h : (record now).start s = (.ok (), s')) :
    (s.last = none ∧ s' = { s with last := some now }) ∨
      ∃ last, s.last = some last ∧ s'.frames.toNat = s.frames.toNat + 1 ∧
        s'.total.toNat = s.total.toNat + now.since last ∧
        s'.worst = max s.worst (micros now last) ∧ s'.last = some now := by
  cases hlast : s.last with
  | none =>
    rw [start_record_first now hlast] at h
    exact .inl ⟨rfl, (Prod.mk.inj h).2.symm⟩
  | some last =>
    refine .inr ⟨last, rfl, ?_⟩
    rw [start_record_next now hlast] at h
    split at h
    · next frames total hframes htotal =>
      obtain rfl := (Prod.mk.inj h).2
      have hcount := Word64.add_eq_ok_iff.1 hframes
      have htime := Word64.add_eq_ok_iff.1 htotal
      rw [toNat_micros] at htime
      exact ⟨hcount, htime, rfl, rfl⟩
    · cases h
    · cases h

/-- As long as the frames can be counted and the total is a word, a record does not stop. -/
theorem exists_start_record {now last : Instant} {s : FrameStats} (h : s.last = some last)
    (hframes : s.frames.toNat + 1 < UInt64.size)
    (htotal : s.total.toNat + now.since last < UInt64.size) :
    ∃ s', (record now).start s = (.ok (), s') ∧ s'.frames.toNat = s.frames.toNat + 1 ∧
      s'.total.toNat = s.total.toNat + now.since last ∧
      s'.worst = max s.worst (micros now last) ∧ s'.last = some now := by
  rw [← toNat_micros] at htotal
  have hstart := start_record_next now h
  have hcount : Word64.add s.frames 1 = .ok (s.frames + 1) := if_pos hframes
  have htime : Word64.add s.total (micros now last) = .ok (s.total + micros now last) :=
    if_pos htotal
  rw [hcount, htime] at hstart
  rcases record_cases hstart with ⟨hnone, -⟩ | ⟨last', hlast', hfacts⟩
  · rw [h] at hnone
    cases hnone
  · obtain rfl := Option.some.inj (h.symm.trans hlast')
    exact ⟨_, hstart, hfacts⟩

end FrameStats

end Handheld
