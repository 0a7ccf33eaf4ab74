import Handheld.Number.Binary64
import Handheld.Panic
import Handheld.Time

/-!
# The refresh of the display

The display is refreshed at a fixed rate, or a wait for it ends at once. The period of a rate is its
reciprocal, rounded first to a binary64 number of seconds and then to the nearest nanosecond, ties
to even.
-/

namespace Handheld

/-- Where the refresh of the display comes from. -/
inductive Refresh where
  /-- A fixed rate per second. -/
  | timed (rate : Binary64)
  /-- Waits end at once. -/
  | immediate
deriving DecidableEq, Repr

namespace Refresh

/-- The rate of a display for which none is chosen, per second. -/
def defaultRate : Binary64 := .ofNat 60

/-- A non-negative number of seconds as a duration. Seconds that do not fit in 64 bits are
refused. -/
def durationOfSeconds (seconds : Binary64) : Except Panic Duration :=
  if seconds.isFinite ∧ seconds.numerator < UInt64.size * seconds.denominator then
    .ok ⟨roundQuotient (seconds.numerator * 1000000000) seconds.denominator⟩
  else .error .durationRange

/-- The time between two refreshes: `none` if waits end at once or the rate is not a positive
number. -/
def period : Refresh → Except Panic (Option Duration)
  | timed rate =>
    if rate.isPositive then (durationOfSeconds rate.reciprocal).map some else .ok none
  | immediate => .ok none

/-- The period of the ticker that waits depend on, if there is one. -/
def ticker (r : Refresh) : Option Duration := r.period.toOption.join

end Refresh

/-- How the simulator is set up. -/
structure SimulatorConfig where
  /-- Where the refresh comes from. -/
  refresh : Refresh
  /-- Core 1 runs at the host's highest priority. -/
  core1MaxPriority : Bool
deriving DecidableEq, Repr

namespace SimulatorConfig

/-- A display with the given rate. -/
def timed (rate : Binary64) : SimulatorConfig := ⟨.timed rate, false⟩

/-- A display that is refreshed at once. -/
def immediate : SimulatorConfig := ⟨.immediate, false⟩

/-- The setup for which nothing is chosen. -/
def initial : SimulatorConfig := timed Refresh.defaultRate

end SimulatorConfig

end Handheld
