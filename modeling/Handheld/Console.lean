import Handheld.App
import Handheld.Screen

/-!
# The console

The console drives an application frame by frame: update, draw, wait for the refresh, and hand the
frame to the display. A stop anywhere in a frame leaves everything as it was at that point.

* `start_waitRefresh`: a wait that ends moves the board on and lets core 1 run.
* `start_flip`: a flip hands the simulator exactly the frame that was drawn.
-/

namespace Handheld

/-- The device: its registers, its second core and its log. -/
structure Machine where
  /-- The registers. -/
  board : Board
  /-- The second core. -/
  core1 : SecondCore
  /-- The log. -/
  log : Log

/-- The device with a screen. -/
structure Console extends Machine where
  /-- The two frames and the pen. -/
  screen : Screen

/-- A console that runs an application. -/
structure Session (σ : Type) extends Console where
  /-- The application's state. -/
  app : σ

/-- The background of the fault screen. -/
def faultBackground : Color := .rgb 219 58 4

/-- Distance of the fault screen's text from the edges. -/
def faultMargin : Int := 3

namespace Console

/-- Work with the registers. -/
def onBoard {α : Type} (step : Step Board α) : Step Console α :=
  step.on (·.board) fun c board => { c with board }

/-- Draw on the screen. -/
def draw {α : Type} (step : Step Canvas α) : Step Console α :=
  step.on (·.screen.canvas) fun c canvas => { c with screen := c.screen.withCanvas canvas }

/-- Wait for the next refresh. Core 1 takes its turns meanwhile. -/
def waitRefresh : Step Console Unit := do
  onBoard Board.waitRefresh
  modify fun c => { c with core1 := c.core1.runWaiting }

/-- Hand the drawn frame to the display and exchange the two frames. -/
def flip : Step Console Unit := do
  let c ← get
  onBoard (Board.present c.screen.target)
  modify fun c => { c with screen := c.screen.flipped }

/-- Paint the fault screen: the text in white on the fault background, broken to the width within
the margins. -/
def paintFault (message : String) : Step Canvas Unit := do
  modify fun c => ((c.setBlend .copy).setColor faultBackground).clear.setColor .white
  let c ← get
  Canvas.write message.toList faultMargin faultMargin (some (c.width - 2 * faultMargin))

/-- Draw the fault screen and show it. -/
def showFault (message : String) : Step Console Unit := do
  draw (paintFault message)
  waitRefresh
  flip

/-- A wait that ends moves the board on and lets core 1 run; otherwise nothing changes. -/
theorem start_waitRefresh (c : Console) :
    waitRefresh.start c =
      match c.board.platform with
      | some _ =>
        if c.board.waitEnds then
          (.ok (), { c with board := c.board.waited, core1 := c.core1.runWaiting })
        else (.error .endless, c)
      | none => (.error (.panic .noPlatform), c) := by
  rw [waitRefresh, Step.start_bind, onBoard, Step.start_on, Board.start_waitRefresh]
  cases c.board.platform with
  | none => rfl
  | some p =>
    by_cases hends : c.board.waitEnds = true
    · simp only [if_pos hends]
      rfl
    · simp only [if_neg hends]

/-- A flip hands the simulator exactly the frame that was drawn and exchanges the frames, unless the
frame is one more than can be counted; without a platform nothing changes. -/
theorem start_flip (c : Console) :
    flip.start c =
      match c.board.platform with
      | some _ =>
        if c.board.simulator.isSome then
          if c.board.presented.toNat + 1 < UInt64.size then
            (.ok (), { c with
              board := { c.board with
                presented := c.board.presented + 1
                display := .capture c.screen.target (c.board.presented + 1) }
              screen := c.screen.flipped })
          else
            (.error (.panic (.overflow .add)), { c with
              board := { c.board with presented := c.board.presented + 1 } })
        else (.ok (), { c with screen := c.screen.flipped })
      | none => (.error (.panic .noPlatform), c) := by
  rw [flip, Step.start_bind, Step.start_get]
  simp only
  rw [Step.start_bind, onBoard, Step.start_on, Board.start_present]
  cases c.board.platform with
  | none => rfl
  | some p =>
    by_cases hsimulator : c.board.simulator.isSome = true
    · by_cases hroom : c.board.presented.toNat + 1 < UInt64.size
      · simp only [if_pos hsimulator, if_pos hroom]
        rfl
      · simp only [if_pos hsimulator, if_neg hroom]
    · simp only [if_neg hsimulator]
      rfl

end Console

namespace Session

variable {σ : Type}

/-- Work with the console. -/
def onConsole {α : Type} (step : Step Console α) : Step (Session σ) α :=
  step.on (·.toConsole) fun s c => { s with toConsole := c }

/-- Run a callback that does not draw. -/
def backstage (callback : Board → Step (Backstage σ) Unit) : Step (Session σ) Unit := do
  let s ← get
  (callback s.board).on (fun s => ⟨s.app, s.core1, s.log⟩) fun s b =>
    { s with app := b.app, core1 := b.core1, log := b.log }

/-- Run a callback that draws on the screen's canvas. -/
def onScene (callback : Board → Step (Scene σ) Unit) : Step (Session σ) Unit := do
  let s ← get
  (callback s.board).on (fun s => ⟨⟨s.app, s.core1, s.log⟩, s.screen.canvas⟩) fun s b =>
    { s with
      app := b.app
      core1 := b.core1
      log := b.log
      screen := s.screen.withCanvas b.canvas }

/-- One frame: update, draw, wait for the refresh, flip. -/
def frame (a : App σ) (tick : UInt32) : Step (Session σ) Unit := do
  backstage (a.update · tick)
  onScene (a.draw · tick)
  -- A stop up to here presents nothing: the frame half drawn is never shown.
  onConsole Console.waitRefresh
  onConsole Console.flip

/-- A number of frames, with ticks that count up from `tick` and wrap. -/
def frames (a : App σ) (tick : UInt32) : Nat → Step (Session σ) Unit
  | 0 => pure ()
  | n + 1 => do
    frame a tick
    frames a (tick + 1) n

/-- Start the application and run a number of frames. -/
def run (a : App σ) (count : Nat) : Step (Session σ) Unit := do
  onScene a.init
  frames a 0 count

end Session

end Handheld
