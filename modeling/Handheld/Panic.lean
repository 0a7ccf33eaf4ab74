import Handheld.Lock.Token

/-!
# Stops of a core

A core that cannot go on stops with a `Panic`: a cause, and in `Panic.message` the text that the
fault screen shows.
-/

namespace Handheld

/-- What an application throws. -/
inductive Payload where
  /-- A text. -/
  | text (message : String)
  /-- Anything that is not a text. -/
  | other
deriving DecidableEq, Repr

/-- The text of a thrown value. -/
def Payload.message : Payload → String
  | text message => message
  | other => "unknown panic"

/-- The arithmetic whose result does not fit its word. -/
inductive Arithmetic where
  /-- Addition. -/
  | add
  /-- Subtraction. -/
  | subtract
  /-- Multiplication. -/
  | multiply
  /-- Change of sign. -/
  | negate
deriving DecidableEq, Repr

/-- The verb of an operation. -/
def Arithmetic.verb : Arithmetic → String
  | add => "add"
  | subtract => "subtract"
  | multiply => "multiply"
  | negate => "negate"

/-- Why a core stopped. -/
inductive Panic where
  /-- The application threw something. -/
  | thrown (payload : Payload)
  /-- There is no platform to ask. -/
  | noPlatform
  /-- There is no platform to start core 1 on. -/
  | noPlatformForCore1
  /-- The right to start core 1 is gone. -/
  | core1Launched
  /-- Core 1 stopped, with this text. -/
  | core1 (message : String)
  /-- A lock was misused. -/
  | misuse (cause : Misuse)
  /-- A result does not fit its word. -/
  | overflow (operation : Arithmetic)
  /-- A number of seconds is too large for a duration. -/
  | durationRange
  /-- The whole seconds of a duration do not fit once its nanoseconds are carried. -/
  | durationCarry
  /-- A frame needs more memory than there are addresses for. -/
  | capacity
deriving DecidableEq, Repr

namespace Panic

/-- The text of a fault of core 1 when it is raised again on core 0. -/
def core1Text (message : String) : String := "core 1 panicked: " ++ message

/-- The text of a stop. -/
def message : Panic → String
  | thrown payload => payload.message
  | noPlatform => "picoframe: no platform installed"
  | noPlatformForCore1 => "picoframe: no platform installed, cannot launch core 1"
  | core1Launched => "core 1 has already been launched"
  | core1 message => core1Text message
  | misuse cause => cause.message
  | overflow operation => "attempt to " ++ operation.verb ++ " with overflow"
  | durationRange => "cannot convert float seconds to Duration: value is either too big or NaN"
  | durationCarry => "overflow in Duration::new"
  | capacity => "capacity overflow"

end Panic

end Handheld
