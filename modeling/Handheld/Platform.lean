/-!
# Platforms

What drives the display, the buttons, the clock and the second core. The first platform that is
installed stays.
-/

namespace Handheld

/-- The platforms that can be installed. -/
inductive Platform where
  /-- The simulator itself. -/
  | simulator
  /-- A test bench around the simulator, whose calling core can be chosen. -/
  | bench
deriving DecidableEq, Repr

end Handheld
