import Handheld.Proofs.Run.Stage
import Mathlib.Data.List.Nodup

/-!
# Places in a run

What is done before a stage of the schedule, for the stages at which a run can come to an end: the
callbacks of the application and the checks of core 1.

* `place_of_callback`: the callbacks, by the number of whole frames before them.
* `eq_schedule_of_check`: a check is preceded by whole frames.
* `count_schedule`: how often a stage that every frame has once is done.
-/

namespace Handheld.Stage

theorem schedule_succ (n : Nat) : schedule (n + 1) = schedule n ++ frame (UInt32.ofNat n) := by
  simp [schedule, List.range_succ]

/-- A longer run begins like a shorter one. -/
theorem schedule_prefix {k n : Nat} (h : k ≤ n) : schedule k <+: schedule n := by
  induction h with
  | refl => exact List.prefix_rfl
  | step _ ih => exact ih.trans (schedule_succ _ ▸ List.prefix_append _ _)

/-- What every frame has once and is not `init` is done once a frame. -/
theorem count_schedule {i : Stage} (hinit : i ≠ .init)
    (hframe : ∀ tick, (frame tick).count i = 1) (n : Nat) : (schedule n).count i = n := by
  induction n with
  | zero => exact List.count_eq_zero_of_not_mem (by simpa [schedule] using hinit)
  | succ n ih => rw [schedule_succ, List.count_append, ih, hframe]

@[simp]
theorem count_check_schedule (n : Nat) : (schedule n).count .check = n :=
  count_schedule Stage.noConfusion (fun _ => by simp [frame]) n

@[simp]
theorem count_record_schedule (n : Nat) : (schedule n).count .record = n :=
  count_schedule Stage.noConfusion (fun _ => by simp [frame]) n

@[simp]
theorem count_wait_schedule (n : Nat) : (schedule n).count .wait = n :=
  count_schedule Stage.noConfusion (fun _ => by simp [frame]) n

@[simp]
theorem count_present_schedule (n : Nat) : (schedule n).count .present = n :=
  count_schedule Stage.noConfusion (fun _ => by simp [frame]) n

theorem fault_not_mem_schedule (message : String) (n : Nat) : .fault message ∉ schedule n := by
  simp [schedule, frame]

/-- Before a stage there is nothing, or a number of whole frames and a part of one. -/
theorem before_stage {n : Nat} {done rest : List Stage} {i : Stage}
    (h : schedule n = done ++ i :: rest) :
    (done = [] ∧ i = .init) ∨ ∃ k < n, ∃ part later, done = schedule k ++ part ∧
      frame (UInt32.ofNat k) = part ++ i :: later := by
  induction n generalizing rest with
  | zero =>
    rcases List.singleton_eq_append_iff.1 h with ⟨hdone, hi⟩ | ⟨_, hi⟩
    · exact .inl ⟨hdone, (List.cons.inj hi).1⟩
    · cases hi
  | succ n ih =>
    rw [schedule_succ] at h
    -- The stage is in the last frame, or in the run without it.
    rcases List.append_eq_append_iff.1 h with ⟨part, hdone, hframe⟩ | ⟨mid, hn, hrest⟩
    · exact .inr ⟨n, n.lt_succ_self, part, rest, hdone, hframe⟩
    · cases mid with
      | nil =>
        refine .inr ⟨n, n.lt_succ_self, [], rest, ?_, hrest.symm⟩
        rw [List.append_nil, hn, List.append_nil]
      | cons j mid =>
        obtain ⟨rfl, -⟩ := List.cons.inj hrest
        rcases ih hn with hinit | ⟨k, hk, hpart⟩
        · exact .inl hinit
        · exact .inr ⟨k, Nat.lt_succ_of_lt hk, hpart⟩

/-- No stage is done twice in a frame, so what is done before it in the frame is determined. -/
theorem part_unique {tick : UInt32} {first second rest later : List Stage} {i : Stage}
    (h : frame tick = first ++ i :: rest) (h' : frame tick = second ++ i :: later) :
    second = first := by
  have hnodup : (first ++ i :: rest).Nodup := by
    rw [← h]
    simp [frame]
  rw [List.nodup_middle, List.nodup_cons, List.mem_append, not_or] at hnodup
  have heq := (List.append_cons_inj_of_notMem hnodup.1.1 hnodup.1.2).1 (h.symm.trans h')
  exact heq.1.symm

/-- A check is preceded by whole frames. -/
theorem eq_schedule_of_check {n : Nat} {done rest : List Stage}
    (h : schedule n = done ++ Stage.check :: rest) : done = schedule (done.count .check) := by
  rcases before_stage h with ⟨-, hcheck⟩ | ⟨k, -, part, later, rfl, hframe⟩
  · cases hcheck
  · have hfirst : frame (UInt32.ofNat k) = [] ++ Stage.check :: _ := rfl
    obtain rfl := part_unique hfirst hframe
    rw [List.append_nil, count_check_schedule]

/-! ## Callbacks -/

/-- The stage is a callback of the application. -/
def isCallback : Stage → Bool
  | .init | .update _ | .draw _ => true
  | _ => false

/-- The places of a run of `n` frames at which a callback is called: the number of whole frames
before it, what is done before it, and the callback. -/
inductive Place (n : Nat) : Nat → List Stage → Stage → Prop where
  /-- At the very start. -/
  | init : Place n 0 [] .init
  /-- After the start of the frame has been recorded. -/
  | update {k : Nat} (h : k < n) :
    Place n k (schedule k ++ [Stage.check, .record]) (.update (UInt32.ofNat k))
  /-- After the update of the same frame. -/
  | draw {k : Nat} (h : k < n) :
    Place n k (schedule k ++ [Stage.check, .record, .update (UInt32.ofNat k)])
      (.draw (UInt32.ofNat k))

/-- A callback is called at one of its places. -/
theorem place_of_callback {n : Nat} {done rest : List Stage} {i : Stage}
    (h : schedule n = done ++ i :: rest) (hi : i.isCallback) : ∃ k, Place n k done i := by
  rcases before_stage h with ⟨rfl, rfl⟩ | ⟨k, hk, part, later, rfl, hframe⟩
  · exact ⟨0, .init⟩
  have hmem : i ∈ frame (UInt32.ofNat k) := by
    rw [hframe]
    exact List.mem_append_right _ List.mem_cons_self
  have hkind : i = .update (UInt32.ofNat k) ∨ i = .draw (UInt32.ofNat k) := by
    revert hmem hi
    cases i <;> simp [frame, isCallback]
  rcases hkind with rfl | rfl
  · obtain rfl : part = [.check, .record] := part_unique rfl hframe
    exact ⟨k, .update hk⟩
  · obtain rfl : part = [.check, .record, .update (UInt32.ofNat k)] := part_unique rfl hframe
    exact ⟨k, .draw hk⟩

namespace Place

variable {n k : Nat} {done : List Stage} {i : Stage}

/-- Every place is in the schedule. -/
theorem exists_rest (h : Place n k done i) : ∃ rest, schedule n = done ++ i :: rest := by
  have hframe : ∀ {k : Nat}, k < n → ∃ later,
      schedule n = schedule k ++ frame (UInt32.ofNat k) ++ later := by
    intro k hk
    obtain ⟨later, hlater⟩ := schedule_prefix (Nat.succ_le_of_lt hk)
    exact ⟨later, by rw [← hlater, schedule_succ]⟩
  cases h with
  | init => exact ⟨_, rfl⟩
  | update hk | draw hk =>
    obtain ⟨later, hlater⟩ := hframe hk
    rw [hlater]
    simp [frame]

/-- There are no more whole frames before a place than in the run. -/
theorem le (h : Place n k done i) : k ≤ n := by
  cases h with
  | init => exact Nat.zero_le n
  | update hk | draw hk => exact Nat.le_of_lt hk

/-- As many refreshes have been waited for as there were whole frames. -/
theorem count_wait (h : Place n k done i) : done.count .wait = k := by
  cases h <;> simp

/-- As many frames have been handed to the display as there were whole frames. -/
theorem count_present (h : Place n k done i) : done.count .present = k := by
  cases h <;> simp

end Place

end Handheld.Stage
