import Handheld.Png
import Handheld.Program

/-!
# The command line

Runs the program on a device whose time moves with the refresh of its display, writes the images
that it saves, and prints what it logs.
-/

namespace Handheld.CommandLine

/-- The help text. -/
def help : String :=
  "Run a picoframe demo on the desktop simulator\n\n" ++
  "Usage: pfrun [OPTIONS]\n\n" ++
  "Options:\n" ++
  "  -d, --demo <DEMO>              Which demo to run [default: bars]\n" ++
  "                                 [possible values: bars, text, dual-core]\n" ++
  "  -f, --frames <FRAMES>          Stop after this many frames (runs until killed otherwise)\n" ++
  "      --refresh-hz <REFRESH_HZ>  Display refresh rate [default: 60]\n" ++
  "      --immediate                Don't wait for vsync at all\n" ++
  "      --width <WIDTH>            [default: 240]\n" ++
  "      --height <HEIGHT>          [default: 240]\n" ++
  "      --hold <HOLD>              Buttons held down for the whole run, e.g. --hold a,left\n" ++
  "      --screenshot <SCREENSHOT>  Save the last presented frame as a PNG\n" ++
  "      --log-level <LOG_LEVEL>    [default: INFO]\n" ++
  "  -h, --help                     Print help\n" ++
  "  -V, --version                  Print version"

/-- What is printed about a command line that is not carried out. -/
def explain : UsageError → String
  | .unknownArgument => "error: unexpected argument found"
  | .invalidValue => "error: a value is missing or cannot be chosen"
  | .refusedValue => "error: invalid value"
  | .repeatedOption => "error: an argument cannot be used multiple times"
  | .valueOnSwitch => "error: unexpected value for an argument"
  | .helpAsked => help
  | .versionAsked => "pfrun 0.1.0"

/-- A new device whose clock moves by one refresh with every wait. -/
def device (o : Options) (canWrite : Bool) : Host :=
  let step : List UInt64 :=
    match o.simulator.refresh.period with
    | .ok (some d) => [UInt64.ofNat d.micros]
    | _ => []
  { board := .bare (.start 0 step)
    core1 := { SecondCore.initial with pace := 1 }
    log := #[]
    disk := .empty fun _ => canWrite }

/-- Wait without end. -/
partial def waitForever {α : Type} : IO α := do
  IO.sleep 1000
  waitForever

/-- Run the program for as long as it goes on: a run without a number of frames that has not failed
is followed further. -/
partial def follow (o : Options) (args : List String) (canWrite : Bool) (patience : Nat) :
    IO (Ending × Host) := do
  match program args patience (device o canWrite) with
  | (some ending, host) =>
    if o.frames.isNone ∧ ending.code = some 0 then follow o args canWrite (2 * patience)
    else return (ending, host)
  | (none, _) => waitForever

/-- Write the images that a run saved: whether all of them could be written. -/
def writeImages (host : Host) : IO Bool := do
  try
    for (path, image) in host.disk.images do IO.FS.writeBinFile path (Png.encode image)
    return true
  catch _ => return false

/-- Print the log and the error of a run. -/
def report (ending : Ending) : IO Unit := do
  for line in ending.log do
    IO.println (line.level.name ++ " " ++ line.target ++ ": " ++ line.message)
  match ending.error with
  | some message => IO.eprintln ("Error: " ++ message)
  | none => pure ()

/-- The exit code: 101 if the program was stopped. -/
def exitCode (ending : Ending) : Nat := ending.code.getD 101

/-- Carry out the options that the arguments give: the exit code. A run whose images cannot be
written is repeated on a device that knows it. -/
def carryOut (o : Options) (args : List String) : IO Nat := do
  let (ending, host) ← follow o args true 1024
  if ← writeImages host then
    report ending
    return exitCode ending
  else
    let (ending, _) ← follow o args false 1024
    report ending
    return exitCode ending

end Handheld.CommandLine

open Handheld.CommandLine in
/-- The command line. -/
def main (args : List String) : IO UInt32 := do
  match read args with
  | .error e =>
    if e = .helpAsked ∨ e = .versionAsked then
      IO.println (explain e)
      return 0
    else
      IO.eprintln (explain e)
      return 2
  | .ok o => return UInt32.ofNat (← carryOut o args)
