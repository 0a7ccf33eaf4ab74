import Handheld.Time

/-!
# Instants up to the last one

Adding a duration to an instant and asking for the time since an instant undo each other, as far as
the microseconds of a 64-bit word reach.

* `Duration.micros_eq`: whole microseconds from seconds and nanoseconds.
* `durationSince_of_checkedAdd`: the time since an instant is what was added to it.
* `checkedAdd_durationSince`: what is added to an instant to reach another one always fits.
* `addition_is_exact`: all of it, and when an addition fails.
-/

namespace Handheld

namespace Duration

variable {d : Duration}

/-- The microseconds of the whole seconds and those of the nanoseconds beyond them. -/
theorem micros_eq (d : Duration) : d.micros = d.seconds * 1000000 + d.subsecNanos / 1000 := by
  rw [micros, seconds, subsecNanos]
  omega

/-- If the whole seconds fit in 64 bits, the microseconds fit in 128. -/
theorem micros_lt (h : d.seconds < UInt64.size) : d.micros < UInt64.size * UInt64.size := by
  have hnanos : d.subsecNanos < 1000000000 := Nat.mod_lt _ (by decide)
  rw [micros_eq]
  calc d.seconds * 1000000 + d.subsecNanos / 1000
      < d.seconds * 1000000 + 1000000 := by omega
    _ = (d.seconds + 1) * 1000000 := (Nat.succ_mul _ _).symm
    _ ≤ UInt64.size * UInt64.size := Nat.mul_le_mul h (by decide)

end Duration

namespace Instant

variable {a r : Instant} {d : Duration}

/-- No time passes from an instant to one that is not after it. -/
theorem durationSince_eq_zero (h : a.us ≤ r.us) : a.durationSince r = .ofMicros 0 := by
  rw [durationSince, since, Nat.sub_eq_zero_of_le (UInt64.le_iff_toNat_le.1 h)]

theorem le_of_checkedAdd (h : a.checkedAdd d = some r) : a.us ≤ r.us := by
  rw [UInt64.le_iff_toNat_le, toNat_eq_of_checkedAdd h]
  exact Nat.le_add_right _ _

/-- The time since an instant is what was added to it, cut to whole microseconds. -/
theorem durationSince_of_checkedAdd (h : a.checkedAdd d = some r) :
    r.durationSince a = .ofMicros d.micros := by
  rw [durationSince, since, toNat_eq_of_checkedAdd h, Nat.add_sub_cancel_left]

/-- The later of two instants. -/
def later (a b : Instant) : Instant := if a.us ≤ b.us then b else a

theorem toNat_us_later (a b : Instant) : (later a b).us.toNat = max a.us.toNat b.us.toNat := by
  rw [later]
  split
  · next hle => exact (Nat.max_eq_right (UInt64.le_iff_toNat_le.1 hle)).symm
  · next hgt =>
    rw [UInt64.le_iff_toNat_le] at hgt
    omega

/-- The time from an instant to another one can be added to it and leads to the later of them. -/
theorem checkedAdd_durationSince (a b : Instant) :
    a.checkedAdd (b.durationSince a) = some (later a b) := by
  have hsum : a.us.toNat + (b.durationSince a).micros = (later a b).us.toNat := by
    rw [durationSince, Duration.micros_ofMicros, since, toNat_us_later]
    omega
  cases hadd : a.checkedAdd (b.durationSince a) with
  | none =>
    -- Both instants fit in a word, so their later one does.
    have hlarge := checkedAdd_eq_none_iff.1 hadd
    rw [hsum] at hlarge
    exact absurd (later a b).us.toNat_lt (Nat.not_lt.2 hlarge)
  | some r =>
    have hus : r.us = (later a b).us :=
      UInt64.toNat_inj.1 ((toNat_eq_of_checkedAdd hadd).trans hsum)
    exact congrArg (fun us => some (Instant.mk us)) hus

/-- For all instants and durations. An addition fails exactly if the sum, cut to whole microseconds,
is past the last instant; otherwise it leads to an instant that is not earlier, from which the time
since the first one is what was added, and none the other way round. The time from an instant to
another one can always be added to it. On the way from seconds and nanoseconds to microseconds no
total passes 128 bits. -/
theorem addition_is_exact (a b : Instant) (d : Duration) :
    (d.micros = d.seconds * 1000000 + d.subsecNanos / 1000 ∧
        (d.seconds < UInt64.size → d.micros < UInt64.size * UInt64.size)) ∧
      (a.checkedAdd d = none ↔ UInt64.size ≤ a.us.toNat + d.micros) ∧
      (a.us.toNat + d.micros < UInt64.size → ∃ r, a.checkedAdd d = some r ∧ a.us ≤ r.us ∧
        r.durationSince a = .ofMicros d.micros ∧ a.durationSince r = .ofMicros 0) ∧
      a.checkedAdd (b.durationSince a) = some (later a b) := by
  refine ⟨⟨d.micros_eq, Duration.micros_lt⟩, checkedAdd_eq_none_iff, ?_,
    checkedAdd_durationSince a b⟩
  intro hfits
  have hsome : a.checkedAdd d ≠ none :=
    fun hnone => absurd hfits (Nat.not_lt.2 (checkedAdd_eq_none_iff.1 hnone))
  obtain ⟨r, hr⟩ := Option.ne_none_iff_exists'.1 hsome
  have hle := le_of_checkedAdd hr
  exact ⟨r, hr, hle, durationSince_of_checkedAdd hr, durationSince_eq_zero hle⟩

/-- Next to the last instant there is room for a microsecond and the 999 nanoseconds that are cut
off, but for no second microsecond. -/
theorem addition_next_to_last_instant :
    let a : Instant := ⟨18446744073709551614⟩
    let b : Instant := ⟨18446744073709551615⟩
    a.checkedAdd ⟨1999⟩ = some b ∧ b.durationSince a = .ofMicros 1 ∧ a.checkedAdd ⟨2000⟩ = none ∧
      b.checkedAdd (a.durationSince b) = some b := by
  intro a b
  obtain ⟨-, -, hadds, -⟩ := addition_is_exact a b ⟨1999⟩
  obtain ⟨-, hfails, -, -⟩ := addition_is_exact a b ⟨2000⟩
  obtain ⟨-, -, -, hback⟩ := addition_is_exact b a ⟨0⟩
  obtain ⟨r, hr, -, hsince, -⟩ := hadds (by decide)
  have hlast : a.checkedAdd ⟨1999⟩ = some b := by decide
  obtain rfl : b = r := Option.some.inj (hlast.symm.trans hr)
  exact ⟨hlast, hsince, hfails.2 (by decide), hback⟩

end Instant

end Handheld
