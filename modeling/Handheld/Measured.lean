import Handheld.Console
import Handheld.FrameStats

/-!
# Measured applications

A measured application records the start of every frame and shows the numbers in a bar along the
bottom edge, on top of what the application inside drew. A stop of core 1 is raised again on core 0
at the start of the next frame, before anything is recorded.
-/

namespace Handheld

/-- An application's state with the times of its frames. -/
structure Measured (σ : Type) where
  /-- The state of the application inside. -/
  inner : σ
  /-- The times of the frames. -/
  stats : FrameStats
deriving DecidableEq

namespace Measured

variable {σ : Type}

/-- A state with nothing recorded. -/
def new (inner : σ) : Measured σ := ⟨inner, .initial⟩

/-- Height of the bar. -/
def barHeight : Int := 12

/-- Draw the bar with a text over the bottom rows. -/
def drawBar (text : String) : Step Canvas Unit := do
  let y : Int := (← get).height - barHeight
  modify fun c =>
    ((c.setBlend .copy).setColor .black |>.rect 0 y c.width barHeight |>.setColor .white)
  Canvas.write text.toList 3 (y + 1) none

/-- Stop if core 1 has stopped. -/
def checkCore1 : Step (Backstage (Measured σ)) Unit := do
  match (← get).core1.fault with
  | some message => throw (.panic (.core1 message))
  | none => pure ()

/-- Record the start of a frame. -/
def recordFrame (b : Board) : Step (Backstage (Measured σ)) Unit := do
  let now ← Step.ofExcept b.now
  (FrameStats.record now).on (·.app.stats) fun s stats =>
    { s with app := { s.app with stats } }

/-- The application inside, as a part of the measured one. -/
def inside (a : App σ) : App (Measured σ) :=
  a.within Measured.inner fun m inner => { m with inner }

/-- Draw the bar with the numbers recorded so far. -/
def drawStats : Step (Scene (Measured σ)) Unit := do
  let s ← get
  Scene.draw (drawBar s.app.stats.text)

/-- The application inside, with its frames measured. -/
def app (a : App σ) : App (Measured σ) where
  init := (inside a).init
  update b tick := do
    checkCore1
    recordFrame b
    (inside a).update b tick
  draw b tick := do
    (inside a).draw b tick
    drawStats

end Measured

namespace Session

variable {σ : Type}

/-- Report how a run ended: nothing, or the text of a stop on either core, after the fault screen
has shown it. -/
def report (outcome : Except Panic Unit) : Step (Session (Measured σ)) (Option String) := do
  let s ← get
  -- After the last frame nobody has looked yet whether core 1 has stopped.
  let fault : Option String :=
    match outcome with
    | .error p => some p.message
    | .ok () => s.core1.fault.map Panic.core1Text
  match fault with
  | some message =>
    onConsole (Console.showFault message)
    return some message
  | none => return none

/-- Run a measured application for a number of frames. The text of a stop on either core is
returned, after the fault screen has shown it. -/
def runMeasured (a : App σ) (count : Nat) : Step (Session (Measured σ)) (Option String) := do
  let outcome ← (run (Measured.app a) count).caught
  report outcome

end Session

end Handheld
