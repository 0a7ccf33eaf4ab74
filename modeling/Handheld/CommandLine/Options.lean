import Handheld.Demo.Basic
import Handheld.Log
import Handheld.Number.Decimal
import Handheld.Refresh

/-!
# Options

The options of the command line with their values, and how the text of a value is read.
-/

namespace Handheld.CommandLine

/-- Why the command line is not carried out. -/
inductive UsageError where
  /-- An option or a position that does not exist. -/
  | unknownArgument
  /-- A value is missing, or is not one of those that can be chosen. -/
  | invalidValue
  /-- A value is not of the form that its option asks for. -/
  | refusedValue
  /-- An option that may be given once is given again. -/
  | repeatedOption
  /-- A value for a switch. -/
  | valueOnSwitch
  /-- The help text is asked for. -/
  | helpAsked
  /-- The version is asked for. -/
  | versionAsked
deriving DecidableEq, Repr

/-- The options. -/
inductive Flag where
  | demo
  | frames
  | refreshRate
  | immediate
  | width
  | height
  | hold
  | screenshot
  | logLevel
  | help
  | version
deriving DecidableEq, Repr

namespace Flag

/-- Every option with its long name. -/
def longNames : List (String × Flag) :=
  [("demo", .demo), ("frames", .frames), ("refresh-hz", .refreshRate), ("immediate", .immediate),
    ("width", .width), ("height", .height), ("hold", .hold), ("screenshot", .screenshot),
    ("log-level", .logLevel), ("help", .help), ("version", .version)]

/-- The option with a long name. -/
def ofLong? (name : List Char) : Option Flag := longNames.lookup (String.ofList name)

/-- The option with a short name. -/
def ofShort? : Char → Option Flag
  | 'd' => some .demo
  | 'f' => some .frames
  | 'h' => some .help
  | 'V' => some .version
  | _ => none

/-- The option comes with a value. -/
def takesValue : Flag → Bool
  | .immediate | .help | .version => false
  | _ => true

/-- The option may be given more than once. -/
def mayRepeat (flag : Flag) : Bool := flag = .hold

end Flag

/-- The values of all options. -/
structure Options where
  /-- Which demo to run. -/
  demo : Demo
  /-- Stop after this many frames; run until stopped if there is none. -/
  frames : Option Nat
  /-- Refresh rate of the display. -/
  refreshRate : Binary64
  /-- Do not wait for the refresh at all. -/
  immediate : Bool
  /-- Columns of the screen. -/
  width : Int
  /-- Rows of the screen. -/
  height : Int
  /-- Buttons held for the whole run. -/
  hold : List Button
  /-- Where to save the last frame shown. -/
  screenshot : Option String
  /-- The least important lines that are logged. -/
  logLevel : Level
deriving DecidableEq, Repr

namespace Options

/-- The values of options that are not given. -/
def initial : Options where
  demo := .bars
  frames := none
  refreshRate := Refresh.defaultRate
  immediate := false
  width := 240
  height := 240
  hold := []
  screenshot := none
  logLevel := .info

/-- The setup of the simulator that the options ask for. -/
def simulator (o : Options) : SimulatorConfig :=
  ⟨if o.immediate then .immediate else .timed o.refreshRate, true⟩

/-- The demo with a name. -/
def demo? (value : List Char) : Option Demo :=
  [Demo.bars, .text, .dualCore].find? fun d => d.name.toList = value

/-- The level with a number or a name, in any case. -/
def level? (value : List Char) : Option Level :=
  match Decimal.integer? value with
  | some n => Level.all.find? fun l => (l.rank : Int) = n
  | none => Level.all.find? fun l => Button.sameLetters l.name (String.ofList value)

/-- A value that must be there. -/
def required {α : Type} (error : UsageError) : Option α → Except UsageError α
  | some a => .ok a
  | none => .error error

/-- The options with the value of one more of them. -/
def withValue (o : Options) (flag : Flag) (value : List Char) : Except UsageError Options :=
  match flag with
  | .demo => (required .invalidValue (demo? value)).map fun demo => { o with demo }
  | .frames =>
    (required .refusedValue (Decimal.unsigned32? value)).map fun n =>
      { o with frames := some n }
  | .refreshRate =>
    (required .refusedValue (Decimal.binary64? value)).map fun refreshRate =>
      { o with refreshRate }
  | .width => (required .refusedValue (Decimal.word32? value)).map fun width => { o with width }
  | .height => (required .refusedValue (Decimal.word32? value)).map fun height => { o with height }
  | .hold =>
    (required .refusedValue
      ((Text.pieces ',' value).mapM fun name => Button.ofName? (String.ofList name))).map
        fun buttons => { o with hold := o.hold ++ buttons }
  | .screenshot =>
    if value.isEmpty then .error .invalidValue
    else .ok { o with screenshot := some (String.ofList value) }
  | .logLevel => (required .refusedValue (level? value)).map fun logLevel => { o with logLevel }
  | .immediate | .help | .version => .ok o

end Options

end Handheld.CommandLine
