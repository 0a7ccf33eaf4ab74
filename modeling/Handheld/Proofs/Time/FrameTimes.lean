import Handheld.FrameStats
import Handheld.Proofs.Sequence
import Mathlib.Algebra.GroupWithZero.Nat
import Mathlib.Algebra.Order.BigOperators.Group.List
import Mathlib.Algebra.Order.Group.Nat
import Mathlib.Data.List.Chain

/-!
# The times of all frames

Instants that never go back, recorded one after the other. The sum of the times between neighbours
telescopes to the time from the first instant to the last, so it fits in the word that holds an
instant however many frames there are, and no record stops but for want of a word that counts the
frames.

* `add_sum_gaps`: the first instant and the times between neighbours make up the last.
* `exists_completes_record`: what a run of records leaves.
* `fst_start_each_record`: how a run ends that has more frames than a word can count.
* `sum_div_length_le_max`: no mean is above the longest time.
* `record_measures_ordered_instants`: all of it, from nothing recorded.
-/

namespace Handheld.FrameStats

open Step (Completes)

variable {first : Instant} {later : List Instant} {s s' : FrameStats}

/-! ## Times between neighbours -/

/-- No instant is before its neighbour. -/
def Ordered (instants : List Instant) : Prop := instants.IsChain fun s t => s.us ≤ t.us

/-- The times from each instant to the next. -/
def gaps (first : Instant) (later : List Instant) : List Nat :=
  List.zipWith Instant.since later (first :: later)

theorem gaps_cons (first next : Instant) (rest : List Instant) :
    gaps first (next :: rest) = next.since first :: gaps next rest := rfl

theorem length_gaps (first : Instant) (later : List Instant) :
    (gaps first later).length = later.length := by
  rw [gaps, List.length_zipWith, List.length_cons]
  omega

/-- From the first instant on, the times between neighbours lead to the last. -/
theorem add_sum_gaps (h : Ordered (first :: later)) :
    first.us.toNat + (gaps first later).sum = (later.getLastD first).us.toNat := by
  induction later generalizing first with
  | nil => rfl
  | cons next rest ih =>
    obtain ⟨hnext, hrest⟩ := List.isChain_cons_cons.1 h
    have hle : first.us.toNat ≤ next.us.toNat := hnext
    rw [gaps_cons, List.sum_cons, List.getLastD_cons, ← ih hrest, Instant.since]
    omega

/-- The longest of some times, zero without any. -/
theorem foldl_max_zero (times : List Nat) : times.foldl max 0 = times.max?.getD 0 := by
  cases times with
  | nil => rfl
  | cons time rest => rw [List.foldl_cons, Nat.zero_max, List.max?_cons', Option.getD_some]

/-! ## Records -/

/-- The numbers after records that go on from `first`, the instant recorded last in `s`. -/
structure Added (first : Instant) (later : List Instant) (s s' : FrameStats) : Prop where
  frames_eq : s'.frames.toNat = s.frames.toNat + later.length
  total_eq : s'.total.toNat = s.total.toNat + (gaps first later).sum
  worst_eq : s'.worst.toNat = (gaps first later).foldl max s.worst.toNat
  last_eq : s'.last = some (later.getLastD first)

/-- Records go on from the instant recorded last while the frames can be counted. -/
theorem exists_completes_record (hlast : s.last = some first)
    (htotal : s.total.toNat ≤ first.us.toNat)
    (hframes : s.frames.toNat + later.length < UInt64.size)
    (h : Ordered (first :: later)) : ∃ s', Completes record later s s' ∧ Added first later s s' := by
  induction later generalizing s first with
  | nil => exact ⟨s, Step.completes_nil_iff.2 rfl, rfl, rfl, rfl, hlast⟩
  | cons next rest ih =>
    obtain ⟨hnext, hrest⟩ := List.isChain_cons_cons.1 h
    rw [List.length_cons] at hframes
    -- The total stays within the instant recorded last.
    have htotal' := Instant.add_since_le htotal hnext
    obtain ⟨m, hm, hcount, htime, hworst, hlast'⟩ := exists_start_record hlast
      (by omega) (Nat.lt_of_le_of_lt htotal' next.us.toNat_lt)
    obtain ⟨s', hs', hadded⟩ := ih hlast' (htime ▸ htotal') (by omega) hrest
    refine ⟨s', Step.completes_cons_iff.2 ⟨m, hm, hs'⟩, ?_, ?_, ?_, ?_⟩
    · rw [hadded.frames_eq, hcount, List.length_cons]
      omega
    · rw [hadded.total_eq, htime, gaps_cons, List.sum_cons, Nat.add_assoc]
    · rw [hadded.worst_eq, hworst, UInt64.toNat_max, toNat_micros, gaps_cons, List.foldl_cons]
    · rw [hadded.last_eq, List.getLastD_cons]

/-- The first instant sets the reference point, and the others add the times between neighbours. -/
theorem exists_completes_record_initial (hframes : later.length < UInt64.size)
    (h : Ordered (first :: later)) :
    ∃ s', Completes record (first :: later) initial s' ∧
      Added first later { initial with last := some first } s' := by
  have hcount : initial.frames.toNat + later.length < UInt64.size := by
    rwa [show initial.frames.toNat = 0 from rfl, Nat.zero_add]
  obtain ⟨s', hs', hadded⟩ := exists_completes_record
    (s := { initial with last := some first }) rfl (Nat.zero_le _) hcount h
  exact ⟨s', Step.completes_cons_iff.2 ⟨_, start_record_first first rfl, hs'⟩, hadded⟩

/-- A run of more frames than a word can count stops. -/
theorem fst_start_each_record (hframes : UInt64.size ≤ later.length)
    (h : Ordered (first :: later)) :
    ((Step.each record (first :: later)).start initial).1 =
      .error (.panic (.overflow .add)) := by
  -- The run splits at the instant that ends the first frame too many.
  have hlt : UInt64.size - 1 < later.length := by
    rw [UInt64.size] at *
    omega
  obtain ⟨counted, next, rest, rfl, hcounted⟩ : ∃ counted next rest,
      later = counted ++ next :: rest ∧ counted.length = UInt64.size - 1 :=
    ⟨_, _, _, (List.take_append_drop _ later).symm.trans
      (congrArg _ (List.drop_eq_getElem_cons hlt)), List.length_take_of_le (Nat.le_of_lt hlt)⟩
  have hordered : Ordered (first :: counted) := List.IsChain.left_of_append h
  obtain ⟨m, hm, hadded⟩ := exists_completes_record_initial
    (hcounted ▸ Nat.sub_lt (by decide) (by decide)) hordered
  have hfull : Word64.add m.frames 1 = .error (.overflow .add) := by
    have hframes : m.frames.toNat = UInt64.size - 1 := by
      rw [hadded.frames_eq, hcounted]
      exact Nat.zero_add _
    rw [Word64.add_eq_error_iff, hframes]
    exact ⟨by decide, rfl⟩
  have hstop : (record next).start m = (.error (.panic (.overflow .add)), m) := by
    rw [start_record_next next hadded.last_eq, hfull]
  rw [← List.cons_append, Step.start_each_of_stop hm hstop]

/-- A mean of times is at most the longest of them. -/
theorem sum_div_length_le_max (times : List Nat) :
    times.sum / times.length ≤ times.max?.getD 0 := by
  have hle : ∀ time ∈ times, time ≤ times.max?.getD 0 := fun _ => List.le_max?_getD_of_mem
  apply Nat.div_le_of_le_mul
  exact List.sum_le_card_nsmul times _ hle

/-! ## The whole run -/

/-- For every sequence of instants that never go back, recorded from nothing. The times between
neighbours add up to the time from the first instant to the last, which is a word however many there
are. As long as a word can count the frames, no record stops, so no sum overflows. There is one
frame fewer than instants, the total is the time from the first instant to the last, the mean is
that time by the frames and rounded down, the longest time is that between some neighbours, and the
mean is not above it; without a frame all are zero. With more frames the run stops at the first that
is not counted. -/
theorem record_measures_ordered_instants (first : Instant) (later : List Instant)
    (h : Ordered (first :: later)) :
    let elapsed := (later.getLastD first).us.toNat - first.us.toNat
    (gaps first later).sum = elapsed ∧ elapsed < UInt64.size ∧
      (later.length < UInt64.size →
        ∃ s, Completes record (first :: later) initial s ∧ s.frames.toNat = later.length ∧
          s.total.toNat = elapsed ∧ s.average.toNat = elapsed / later.length ∧
          s.worst.toNat = (gaps first later).max?.getD 0 ∧ s.average ≤ s.worst ∧
          (later = [] → s.average = 0 ∧ s.worst = 0)) ∧
      (UInt64.size ≤ later.length →
        ((Step.each record (first :: later)).start initial).1 =
          .error (.panic (.overflow .add))) := by
  intro elapsed
  have hsum : (gaps first later).sum = elapsed := by
    rw [← Nat.add_right_inj, add_sum_gaps h, Nat.add_sub_cancel']
    exact Nat.le.intro (add_sum_gaps h)
  have hword : elapsed < UInt64.size :=
    Nat.lt_of_le_of_lt (Nat.sub_le _ _) (later.getLastD first).us.toNat_lt
  refine ⟨hsum, hword, fun hframes => ?_, fun hframes => fst_start_each_record hframes h⟩
  obtain ⟨s, hs, hadded⟩ := exists_completes_record_initial hframes h
  have hcount : s.frames.toNat = later.length := hadded.frames_eq.trans (Nat.zero_add _)
  have htotal : s.total.toNat = elapsed := hadded.total_eq.trans ((Nat.zero_add _).trans hsum)
  have hworst : s.worst.toNat = (gaps first later).max?.getD 0 := by
    rw [← foldl_max_zero]
    exact hadded.worst_eq
  have haverage : s.average.toNat = elapsed / later.length := by
    rw [average, UInt64.toNat_div, htotal, hcount]
  refine ⟨s, hs, hcount, htotal, haverage, hworst, ?_, ?_⟩
  · have hmean := sum_div_length_le_max (gaps first later)
    rw [length_gaps, hsum, ← haverage, ← hworst] at hmean
    exact hmean
  · rintro rfl
    exact ⟨UInt64.toNat_inj.1 (haverage.trans (Nat.div_zero _)), UInt64.toNat_inj.1 hworst⟩

/-- Three instants from the first that a clock can show to the last. -/
theorem record_measures_whole_clock :
    let first : Instant := ⟨0⟩
    let later : List Instant := [⟨16000⟩, ⟨18446744073709551615⟩]
    Ordered (first :: later) ∧ ∃ s, Completes record (first :: later) initial s ∧
      s.frames.toNat = 2 ∧ s.total.toNat = 18446744073709551615 ∧
      s.average.toNat = 9223372036854775807 ∧ s.worst.toNat = 18446744073709535615 := by
  intro first later
  have hordered : Ordered (first :: later) :=
    .cons_cons (by decide) (.cons_cons (by decide) (.singleton _))
  obtain ⟨-, -, hrun, -⟩ := record_measures_ordered_instants first later hordered
  obtain ⟨s, hs, hframes, htotal, haverage, hworst, -, -⟩ := hrun (by decide)
  exact ⟨hordered, s, hs, hframes, htotal, haverage.trans (by decide), hworst⟩

end Handheld.FrameStats
