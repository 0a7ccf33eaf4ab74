import Handheld.Panic

/-!
# Time

Instants are counts of microseconds in 64 bits; durations are exact counts of nanoseconds. The clock
follows a script: every wait for the display's refresh moves it on by the next entry of a list that
repeats.

* `checkedAdd_eq_none_iff`: an addition fails exactly if the sum does not fit.
* `toNat_eq_of_checkedAdd`: and then it is exact.
-/

namespace Handheld

/-- An exact length of time, in nanoseconds. -/
structure Duration where
  /-- The number of nanoseconds. -/
  nanos : Nat
deriving DecidableEq, Repr, Inhabited

namespace Duration

/-- A number of whole microseconds. -/
def ofMicros (us : Nat) : Duration := ⟨us * 1000⟩

/-- Seconds and nanoseconds. Full seconds among the nanoseconds are carried, and a sum that does not
fit in 64 bits is refused. -/
def ofSeconds (secs nanos : Nat) : Except Panic Duration :=
  if secs + nanos / 1000000000 < UInt64.size then .ok ⟨secs * 1000000000 + nanos⟩
  else .error .durationCarry

/-- Whole seconds. -/
def seconds (d : Duration) : Nat := d.nanos / 1000000000

/-- Nanoseconds beyond the whole seconds. -/
def subsecNanos (d : Duration) : Nat := d.nanos % 1000000000

/-- Whole microseconds. -/
def micros (d : Duration) : Nat := d.nanos / 1000

/-- Whole microseconds in 64 bits, if they fit. -/
def micros64? (d : Duration) : Option UInt64 :=
  if d.micros < UInt64.size then some (UInt64.ofNat d.micros) else none

@[simp]
theorem micros_ofMicros (us : Nat) : (ofMicros us).micros = us := by
  simp [micros, ofMicros]

/-- A word of microseconds is found exactly if the number fits, and is that number. -/
theorem micros64?_eq_some_iff {d : Duration} {us : UInt64} :
    d.micros64? = some us ↔ us.toNat = d.micros := by
  rw [micros64?]
  split
  · next hlt =>
    rw [Option.some_inj, ← UInt64.toNat_inj, UInt64.toNat_ofNat_of_lt' hlt]
    exact eq_comm
  · next hge =>
    have hword := us.toNat_lt
    rw [UInt64.size] at hge
    simp only [reduceCtorEq, false_iff]
    omega

theorem micros64?_eq_none_iff {d : Duration} : d.micros64? = none ↔ UInt64.size ≤ d.micros := by
  rw [micros64?]
  split
  · simp
    omega
  · simp
    omega

end Duration

/-- A point in time, in microseconds since the device started. -/
structure Instant where
  /-- The number of microseconds. -/
  us : UInt64
deriving DecidableEq, Repr, Inhabited

namespace Instant

/-- Microseconds from an earlier instant to a later one, zero if they are the other way round. -/
def since (later earlier : Instant) : Nat := later.us.toNat - earlier.us.toNat

/-- Time from an earlier instant to a later one, zero if they are the other way round. -/
def durationSince (later earlier : Instant) : Duration := .ofMicros (later.since earlier)

/-- The instant after a duration, cut to whole microseconds. First these have to fit in 64 bits, and
then the sum. -/
def checkedAdd (start : Instant) (d : Duration) : Option Instant := do
  let us ← d.micros64?
  if start.us.toNat + us.toNat < UInt64.size then some ⟨start.us + us⟩ else none

/-- The order of two instants. -/
def order (s t : Instant) : Ordering := compare s.us.toNat t.us.toNat

/-- A time up to an instant and the time from there to a later one are up to the later one. -/
theorem add_since_le {earlier later : Instant} {us : Nat} (hus : us ≤ earlier.us.toNat)
    (h : earlier.us ≤ later.us) : us + later.since earlier ≤ later.us.toNat := by
  have hle : earlier.us.toNat ≤ later.us.toNat := h
  rw [since]
  omega

/-- An addition fails exactly if the sum does not fit. -/
theorem checkedAdd_eq_none_iff {start : Instant} {d : Duration} :
    start.checkedAdd d = none ↔ UInt64.size ≤ start.us.toNat + d.micros := by
  rw [checkedAdd]
  cases hus : d.micros64? with
  | none =>
    have hlarge := Duration.micros64?_eq_none_iff.1 hus
    simp only [Option.bind_eq_bind, Option.bind_none, true_iff]
    omega
  | some us =>
    rw [← Duration.micros64?_eq_some_iff.1 hus]
    simp

/-- An addition that succeeds is exact. -/
theorem toNat_eq_of_checkedAdd {start result : Instant} {d : Duration}
    (h : start.checkedAdd d = some result) : result.us.toNat = start.us.toNat + d.micros := by
  obtain ⟨us, hus, hsum⟩ := Option.bind_eq_some_iff.1 h
  split at hsum
  · next hlt =>
    obtain rfl := Option.some.inj hsum
    rw [UInt64.toNat_add, Nat.mod_eq_of_lt hlt, Duration.micros64?_eq_some_iff.1 hus]
  · cases hsum

end Instant

/-- A clock that moves only while somebody waits for the display's refresh. -/
structure Clock where
  /-- The present time. -/
  now : UInt64
  /-- What the coming waits add, in order; the list repeats. An empty list adds nothing. -/
  script : List UInt64
  /-- The entries that are left of the current repetition. -/
  left : List UInt64
deriving DecidableEq, Repr, Inhabited

namespace Clock

/-- A clock at a time, with the script of the waits to come. -/
def start (now : UInt64) (script : List UInt64) : Clock := ⟨now, script, script⟩

/-- Wait for one refresh. The sum wraps. -/
def wait (c : Clock) : Clock :=
  match c.left with
  | us :: rest => { c with now := c.now + us, left := rest }
  | [] =>
    match c.script with
    | us :: rest => { c with now := c.now + us, left := rest }
    | [] => c

end Clock

end Handheld
