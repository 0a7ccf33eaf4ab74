import Handheld.Board
import Handheld.Canvas.Command
import Handheld.Core.Second
import Handheld.Log

/-!
# Applications

An application has a state of its own and three callbacks. A callback reads the board, changes the
application's state, core 1 and the log, and, if it draws, the canvas; it may stop half-way. It has
no way to reach the display, the clock or the frame that is shown.
-/

namespace Handheld

/-- What a callback may change when it does not draw. -/
structure Backstage (σ : Type) where
  /-- The application's own state. -/
  app : σ
  /-- The second core. -/
  core1 : SecondCore
  /-- The log. -/
  log : Log

/-- What a callback may change when it draws. -/
structure Scene (σ : Type) extends Backstage σ where
  /-- The frame to draw on, with the pen. -/
  canvas : Canvas

/-- An application. -/
structure App (σ : Type) where
  /-- Runs once before the first frame. -/
  init : Board → Step (Scene σ) Unit
  /-- Runs at the start of each frame. -/
  update : Board → UInt32 → Step (Backstage σ) Unit
  /-- Draws the frame. The canvas holds what was drawn two frames ago. -/
  draw : Board → UInt32 → Step (Scene σ) Unit

namespace Backstage

variable {σ τ : Type}

/-- Write a line to the log. -/
def write (line : LogLine) : Step (Backstage σ) Unit :=
  modify fun s => { s with log := s.log.push line }

/-- Work with the second core. -/
def second {α : Type} (step : Step SecondCore α) : Step (Backstage σ) α :=
  step.on (·.core1) fun s core1 => { s with core1 }

/-- Change the application's own state. -/
def changeApp (f : σ → σ) : Step (Backstage σ) Unit := modify fun s => { s with app := f s.app }

/-- Run a callback of an application whose state is a part of this one's. -/
def within {α : Type} (part : τ → σ) (put : τ → σ → τ) (step : Step (Backstage σ) α) :
    Step (Backstage τ) α :=
  step.on (fun t => { t with app := part t.app }) fun t s => { s with app := put t.app s.app }

end Backstage

namespace Scene

variable {σ τ : Type}

/-- Do what needs no canvas. -/
def backstage {α : Type} (step : Step (Backstage σ) α) : Step (Scene σ) α :=
  step.on (·.toBackstage) fun s b => { s with toBackstage := b }

/-- Draw on the canvas. -/
def draw {α : Type} (step : Step Canvas α) : Step (Scene σ) α :=
  step.on (·.canvas) fun s canvas => { s with canvas }

@[simp]
theorem start_draw_modify (f : Canvas → Canvas) (s : Scene σ) :
    (draw (modify f)).start s = (.ok (), { s with canvas := f s.canvas }) := rfl

/-- Run a callback of an application whose state is a part of this one's. -/
def within {α : Type} (part : τ → σ) (put : τ → σ → τ) (step : Step (Scene σ) α) :
    Step (Scene τ) α :=
  step.on (fun t => { t with app := part t.app }) fun t s => { s with app := put t.app s.app }

end Scene

namespace App

variable {σ τ : Type}

/-- The application as a part of one with a larger state. -/
def within (part : τ → σ) (put : τ → σ → τ) (a : App σ) : App τ where
  init b := Scene.within part put (a.init b)
  update b tick := Backstage.within part put (a.update b tick)
  draw b tick := Scene.within part put (a.draw b tick)

end App

end Handheld
