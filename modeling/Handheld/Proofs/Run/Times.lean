import Handheld.FrameStats

/-!
# Frame times on a clock that does not run back

The total of the frame times is the time since the first recorded instant as long as the clock does
not run back, so it fits in 64 bits and recording does not stop while the frames can be counted.

* `start_record_of_fits`: a record does not stop, and the times fit again after it.
* `counts_record`: the frames are one fewer than the recorded instants.
-/

namespace Handheld

/-- The clock does not run back in the coming waits. -/
def Clock.NeverDecreases (c : Clock) : Nat → Prop
  | 0 => True
  | n + 1 => c.now ≤ c.wait.now ∧ c.wait.NeverDecreases n

theorem Clock.NeverDecreases.mono {c : Clock} {m n : Nat} (h : c.NeverDecreases n) (hle : m ≤ n) :
    c.NeverDecreases m := by
  induction m generalizing c n with
  | zero => trivial
  | succ m ih =>
    obtain ⟨n, rfl⟩ : ∃ k, n = k + 1 := ⟨n - 1, by omega⟩
    exact ⟨h.1, ih h.2 (by omega)⟩

/-- A clock without a script stands still. -/
theorem Clock.neverDecreases_start_nil (now : UInt64) (n : Nat) :
    (Clock.start now []).NeverDecreases n := by
  induction n with
  | zero => trivial
  | succ n ih => exact ⟨UInt64.le_refl now, ih⟩

namespace FrameStats

/-- The total is within the instant recorded last, which is not ahead of the clock. -/
def Fits (s : FrameStats) (now : UInt64) : Prop :=
  match s.last with
  | none => s.total = 0
  | some last => s.total.toNat ≤ last.us.toNat ∧ last.us ≤ now

/-- So many instants have been recorded. -/
def Counts (s : FrameStats) (records : Nat) : Prop :=
  match s.last with
  | none => s.frames = 0 ∧ records = 0
  | some _ => records = s.frames.toNat + 1

/-- The frames of so many more instants can be counted. -/
def RoomFor (s : FrameStats) (records : Nat) : Prop := s.frames.toNat + records < UInt64.size

theorem fits_initial (now : UInt64) : initial.Fits now := rfl

theorem counts_initial : initial.Counts 0 := ⟨rfl, rfl⟩

theorem RoomFor.mono {s : FrameStats} {m n : Nat} (h : s.RoomFor n) (hle : m ≤ n) : s.RoomFor m :=
  Nat.lt_of_le_of_lt (Nat.add_le_add_left hle _) h

/-- Times that fit go on fitting as the clock moves on. -/
theorem Fits.mono {s : FrameStats} {now later : UInt64} (h : s.Fits now) (hle : now ≤ later) :
    s.Fits later := by
  unfold Fits at h ⊢
  split at h
  · exact h
  · exact ⟨h.1, UInt64.le_trans h.2 hle⟩

/-- If the times fit and one more frame can be counted, a record does not stop, they fit again, and
at most that frame has been counted. -/
theorem start_record_of_fits {s : FrameStats} {now : Instant} {records : Nat}
    (h : s.Fits now.us) (hroom : s.RoomFor (records + 1)) :
    ∃ s', (record now).start s = (.ok (), s') ∧ s'.Fits now.us ∧ s'.RoomFor records := by
  unfold Fits at h
  unfold RoomFor at hroom
  split at h
  · next hlast =>
    have htotal : s.total.toNat ≤ now.us.toNat := by
      rw [h]
      exact Nat.zero_le _
    exact ⟨_, start_record_first now hlast, ⟨htotal, UInt64.le_refl _⟩,
      Nat.lt_of_succ_lt hroom⟩
  · next last hlast =>
    have htotal := Instant.add_since_le h.1 h.2
    obtain ⟨s', hstart, hframes, htotal', -, hlast'⟩ := exists_start_record hlast (by omega)
      (Nat.lt_of_le_of_lt htotal now.us.toNat_lt)
    refine ⟨s', hstart, ?_, ?_⟩
    · rw [Fits, hlast', htotal']
      exact ⟨htotal, UInt64.le_refl _⟩
    · unfold RoomFor
      omega

/-- A record that does not stop counts its instant. -/
theorem counts_record {s s' : FrameStats} {now : Instant} {records : Nat} (h : s.Counts records)
    (hrecord : (record now).start s = (.ok (), s')) : s'.Counts (records + 1) := by
  rw [Counts] at h
  rcases record_cases hrecord with ⟨hlast, rfl⟩ | ⟨last, hlast, hframes, -, -, hlast'⟩
  · rw [hlast] at h
    simp [Counts, h]
  · rw [hlast] at h
    simp only at h
    rw [Counts, hlast']
    simp only
    omega

/-- The frames are one fewer than the recorded instants. -/
theorem Counts.frames_eq {s : FrameStats} {records : Nat} (h : s.Counts records) :
    s.frames.toNat = records - 1 := by
  unfold Counts at h
  split at h
  · rw [h.1, h.2]
    rfl
  · omega

end FrameStats

end Handheld
