import Handheld.Proofs.Canvas.Writing
import Handheld.Proofs.Console.Running

/-!
# The fault screen

What the fault screen shows depends on its text and on the size of the screen, and on nothing that
was drawn or chosen before. Its text has to be one that can be drawn: a text of too many lines stops
the core that would show it, and nothing is shown.

* `start_paintFault`, `fst_start_paintFault`: painting gives the fault screen, or stops.
* `frame_withFault`: the painted frame is the fault screen of that size.
* `start_showFault_of_running`: showing it waits once and flips once.
* `exists_start_showFault_of_not_fits`: what is left if it cannot be painted.
-/

namespace Handheld

/-- A frame that is overwritten keeps its size alone. -/
theorem Frame.fill_eq_filled (f : Frame) (c : Color) : f.fill c = .filled f.width f.height c := by
  obtain ⟨w, h, pixels, hsize⟩ := f
  simp [fill, withPixels, filled, hsize]

namespace Console

/-- The text, broken to the width within the margins of a screen, can be drawn. -/
def FaultFits (width : Nat) (message : String) : Prop :=
  Text.Drawable message.toList (some (width - 2 * faultMargin))

instance (width : Nat) (message : String) : Decidable (FaultFits width message) :=
  inferInstanceAs (Decidable (Text.Drawable _ _))

/-- A canvas with the fault screen painted over it. -/
def withFault (message : String) (c : Canvas) : Canvas :=
  (((c.setBlend .copy).setColor faultBackground).clear.setColor .white).withText message.toList
    faultMargin faultMargin (some (c.width - 2 * faultMargin))

/-- Painting gives the fault screen if its text can be drawn. -/
theorem start_paintFault {message : String} {c : Canvas} (h : FaultFits c.width message) :
    (paintFault message).start c = (.ok (), withFault message c) := by
  rw [paintFault, Step.start_bind_of_ok (Step.start_modify _ c),
    Step.start_bind_of_ok (Step.start_get _)]
  exact Canvas.start_write_of_near_top _ h (by decide) (by decide)

/-- Painting stops if the text cannot be drawn. -/
theorem fst_start_paintFault {message : String} {c : Canvas} (h : ¬ FaultFits c.width message) :
    ((paintFault message).start c).1 = .error (.panic (.overflow .multiply)) := by
  rw [paintFault, Step.start_bind_of_ok (Step.start_modify _ c),
    Step.start_bind_of_ok (Step.start_get _), Canvas.fst_start_write]
  exact if_neg h

/-- The fault screen of a size: the text in white on the fault background. -/
def faultScreen (w h : Nat) (message : String) : Frame :=
  (withFault message ⟨.filled w h .black, .initial⟩).frame

/-- Painting the fault screen leaves nothing of what was there. -/
theorem frame_withFault (message : String) (c : Canvas) :
    (withFault message c).frame = faultScreen c.width c.height message := by
  have hclear : ∀ d : Canvas, ((d.setBlend .copy).setColor faultBackground).clear.setColor .white =
      ⟨.filled d.width d.height faultBackground, ⟨.white, .copy⟩⟩ := by
    intro d
    rw [Canvas.clear, Canvas.setColor, Frame.fill_eq_filled]
    rfl
  unfold faultScreen withFault
  simp only [hclear]
  rfl

/-! ## Showing it -/

variable {c : Console} {message : String}

/-- The console after the fault screen has been painted. -/
def painted (message : String) (c : Console) : Console :=
  { c with screen := c.screen.withCanvas (withFault message c.screen.canvas) }

/-- The console after the fault screen has been shown. -/
def faulted (message : String) (c : Console) : Console := (c.painted message).waited.shown

theorem start_draw_paintFault (h : FaultFits c.screen.width message) :
    (draw (paintFault message)).start c = (.ok (), c.painted message) := by
  have hpaint : (paintFault message).start c.screen.canvas = _ := start_paintFault h
  rw [draw, Step.start_on, hpaint]
  rfl

/-- A fault screen that cannot be painted stops the core. Only the frame to draw on and the pen have
changed. -/
theorem exists_start_draw_of_not_fits (h : ¬ FaultFits c.screen.width message) :
    ∃ canvas, (draw (paintFault message)).start c =
      (.error (.panic (.overflow .multiply)),
        { c with screen := c.screen.withCanvas canvas }) :=
  ⟨_, Prod.ext (fst_start_paintFault (c := c.screen.canvas) h) rfl⟩

/-- Showing the fault screen waits once and flips once. -/
theorem start_showFault_of_running (hrun : c.board.Running) (hroom : c.board.RoomFor 1)
    (h : FaultFits c.screen.width message) :
    (showFault message).start c = (.ok (), c.faulted message) := by
  have hwait : waitRefresh.start (c.painted message) = _ := start_waitRefresh_of_running hrun
  rw [showFault, Step.start_bind_of_ok (start_draw_paintFault h), Step.start_bind_of_ok hwait]
  exact start_flip_of_running (Board.running_waited hrun) hroom

/-- A fault screen that cannot be painted is not shown. -/
theorem exists_start_showFault_of_not_fits (h : ¬ FaultFits c.screen.width message) :
    ∃ canvas, (showFault message).start c =
      (.error (.panic (.overflow .multiply)),
        { c with screen := c.screen.withCanvas canvas }) := by
  obtain ⟨canvas, hdraw⟩ := exists_start_draw_of_not_fits h
  exact ⟨canvas, Step.start_bind_of_error hdraw _⟩

theorem front_painted (message : String) (c : Console) :
    (c.painted message).screen.flipped.front =
      faultScreen c.screen.width c.screen.height message :=
  frame_withFault message c.screen.canvas

/-- The fault screen is shown and kept by the display. -/
theorem front_faulted (message : String) (c : Console) :
    (c.faulted message).screen.front = faultScreen c.screen.width c.screen.height message :=
  front_painted message c

end Console

end Handheld
