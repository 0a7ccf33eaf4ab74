import Handheld.CommandLine.Reader
import Handheld.Measured
import Handheld.Screenshot

/-!
# The program

Run a demo on the simulator as the command line asks, save the last frame if wanted, and report how
it went.

* `run_of_badSize`: a screen without pixels is refused before anything is set up.
-/

namespace Handheld

open CommandLine

/-- Why a run failed. -/
inductive RunError where
  /-- The screen would have no pixels. -/
  | badSize (width height : Int)
  /-- The refresh rate is not a positive number. -/
  | badRate (rate : Binary64)
  /-- There is no screenshot. -/
  | screenshot (cause : ScreenshotError)
  /-- The application stopped, with this text. -/
  | stopped (message : String)
deriving DecidableEq, Repr

/-- The text of the failure. -/
def RunError.message : RunError → String
  | badSize width height =>
    "screen must be at least 1x1, got " ++ toString width ++ "x" ++ toString height
  | badRate rate => "refresh rate must be a positive number, got " ++ Decimal.text rate
  | screenshot cause => cause.message
  | stopped message => "application panicked: " ++ message

/-- The device and the files. -/
structure Host extends Machine where
  /-- The files. -/
  disk : Disk

namespace Host

/-- Where the program's own lines in the log come from. -/
def logTarget : String := "pfrun"

/-- Write a line of the program to the log. -/
def write (message : String) : Step Host Unit :=
  modify fun s => { s with log := s.log.push ⟨.info, logTarget, message⟩ }

/-- Refuse options with which nothing can run. A rate whose period does not fit stops the caller. -/
def check (o : Options) : Except Panic (Option RunError) :=
  if o.width ≤ 0 ∨ o.height ≤ 0 then .ok (some (.badSize o.width o.height))
  else if o.immediate then .ok none
  else
    o.simulator.refresh.period.map fun period =>
      if period.isNone then some (.badRate o.refreshRate) else none

/-- Build the simulator and hold the buttons down. -/
def setUp (o : Options) : Step Host Unit := do
  let _ ← (Board.installSimulator o.simulator).on (·.board) fun s board => { s with board }
  modify fun s => { s with board := s.board.setButtons fun held => o.hold.foldl .press held }

/-- Run the demo on a screen: the text of a stop, and the times of the frames. -/
def runDemo (o : Options) (screen : Screen) (frames : Nat) :
    Step Host (Option String × FrameStats) :=
  .ofFunction fun s =>
    let session : Session (Measured Demo.State) :=
      { s.toMachine with screen, app := .new o.demo.build }
    let (outcome, session) := (Session.runMeasured Demo.app frames).start session
    (outcome.map fun fault => (fault, session.app.stats), { s with toMachine := session.toMachine })

/-- Save what the display shows, if that is wanted. -/
def saveScreenshot (path : Option String) : Step Host (Option RunError) := do
  match path with
  | none => return none
  | some path =>
    let s ← get
    match s.disk.save path s.board.display with
    | .error e => return some (.screenshot e)
    | .ok disk =>
      set { s with disk }
      write ("wrote " ++ path)
      return none

/-- Carry out the options. Without a number of frames the run is followed for `patience` frames. -/
def run (o : Options) (patience : Nat) : Step Host (Option RunError) := do
  match ← Step.ofExcept (check o) with
  | some e => return some e
  | none =>
    setUp o
    -- A screen too large for any memory stops the program before the demo is announced.
    let screen ← Step.ofExcept (Screen.allocate o.width o.height)
    write ("running " ++ o.demo.title)
    let (fault, stats) ← runDemo o screen (o.frames.getD patience)
    write stats.text
    -- A screenshot that fails is reported first, also after a stop.
    match ← saveScreenshot o.screenshot with
    | some e => return some e
    | none => return fault.map .stopped

/-- A screen without pixels is refused before anything is set up. -/
theorem run_of_badSize {o : Options} (h : o.width ≤ 0 ∨ o.height ≤ 0) (patience : Nat)
    (s : Host) : (run o patience).start s = (.ok (some (.badSize o.width o.height)), s) := by
  have hcheck : check o = .ok (some (.badSize o.width o.height)) := by
    unfold check
    rw [if_pos h]
  simp [run, hcheck, Step.start_bind]

end Host

/-- How the program ended. -/
structure Ending where
  /-- The exit code, unless the program was stopped. -/
  code : Option Nat
  /-- The text of the error, if the run failed. -/
  error : Option String
  /-- The lines logged. -/
  log : Log

/-- The whole program. Asking for help or the version is no failure; any other command line that is
not understood ends with code 2 and a run that fails with code 1. A stop outside the demo ends the
program before it has a code of its own, and a program that waits for a refresh that does not come
has no end. -/
def program (args : List String) (patience : Nat) (s : Host) : Option Ending × Host :=
  match read args with
  | .error .helpAsked | .error .versionAsked => (some ⟨some 0, none, #[]⟩, s)
  | .error _ => (some ⟨some 2, none, #[]⟩, s)
  | .ok o =>
    let (outcome, s) := (do
      Host.write "stdout logger started"
      Host.run o patience : Step Host (Option RunError)).start s
    let log := s.log.upTo o.logLevel
    match outcome with
    | .ok none => (some ⟨some 0, none, log⟩, s)
    | .ok (some e) => (some ⟨some 1, some e.message, log⟩, s)
    | .error (.panic _) => (some ⟨none, none, log⟩, s)
    | .error .endless => (none, s)

end Handheld
