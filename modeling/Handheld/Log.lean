/-!
# The log

Lines with a level and the place that they come from, in the order in which they are written.
-/

namespace Handheld

/-- How important a line is. -/
inductive Level where
  | error
  | warn
  | info
  | debug
  | trace
deriving DecidableEq, Repr

namespace Level

/-- The levels, the most important first. -/
def all : List Level := [.error, .warn, .info, .debug, .trace]

/-- Position of a level, one for the most important. -/
def rank : Level → Nat
  | error => 1
  | warn => 2
  | info => 3
  | debug => 4
  | trace => 5

/-- The name of a level in the log. -/
def name : Level → String
  | error => "ERROR"
  | warn => "WARN"
  | info => "INFO"
  | debug => "DEBUG"
  | trace => "TRACE"

end Level

/-- One line of the log. -/
structure LogLine where
  /-- How important it is. -/
  level : Level
  /-- Where it comes from. -/
  target : String
  /-- What it tells. -/
  message : String
deriving DecidableEq, Repr

/-- The lines written so far, the latest last. -/
abbrev Log := Array LogLine

/-- The lines that are at least as important as a level. -/
def Log.upTo (log : Log) (level : Level) : Log := log.filter fun l => l.level.rank ≤ level.rank

end Handheld
