import Handheld.App
import Handheld.Number.Checked

/-!
# Scrolling bars

Eight color bars that scroll over the canvas, steered by the left and right buttons, with the held
buttons listed on top.
-/

namespace Handheld.Demo

/-- State of the scrolling bars. -/
structure Bars where
  /-- How far the bars have scrolled. It wraps. -/
  offset : Int32
  /-- The buttons held at the last update. -/
  held : List Button
deriving DecidableEq

namespace Bars

/-- The bars before the first frame. -/
def initial : Bars := ⟨0, []⟩

instance : Inhabited Bars := ⟨initial⟩

/-- The colors of the bars, from the left. -/
def palette : List Color :=
  [.rgb 255 255 255, .rgb 255 255 0, .rgb 0 255 255, .rgb 0 255 0, .rgb 255 0 255, .rgb 255 0 0,
    .rgb 0 0 255, .rgb 0 0 0]

/-- How far one frame scrolls: faster to the side that is held, and backwards to the left. -/
def stepOf (left right : Bool) : Int32 :=
  match left, right with
  | true, false => -2
  | false, true => 2
  | _, _ => 1

/-- Width of one bar. -/
def barWidth (width : Nat) : Int := max ((width : Int).tdiv 8) 1

/-- Distance by which the bars are shifted to the left. -/
def shift (width : Nat) (offset : Int32) : Int := offset.toInt.emod (barWidth width * 8)

/-- Draw bar `i` and the copy of it that follows all bars, so that the bars join where they wrap. -/
def drawBar {σ : Type} (width height : Nat) (offset : Int32) (i : Nat) (color : Color) :
    Step (Scene σ) Unit := do
  let bar := barWidth width
  let x := i * bar - shift width offset
  Scene.draw (modify fun c => (c.setColor color).rect x 0 bar height)
  -- On a very wide canvas the column of the copy is no signed word any more.
  let again ← Step.ofExcept (Word32.add x (bar * 8))
  Scene.draw (modify fun c => c.rect again 0 bar height)

/-- Draw bars from position `i` on. -/
def drawBars {σ : Type} (width height : Nat) (offset : Int32) (i : Nat) :
    List Color → Step (Scene σ) Unit
  | [] => pure ()
  | color :: rest => do
    drawBar width height offset i color
    drawBars width height offset (i + 1) rest

/-- The line that lists the held buttons. -/
def heldText (held : List Button) : String :=
  "held: " ++ " ".intercalate (held.map Button.name)

/-- Darken the top rows and list the held buttons there. -/
def drawHeld (held : List Button) : Step Canvas Unit := do
  modify fun c =>
    ((c.setBlend .alpha).setColor ⟨0, 0, 0, 160⟩ |>.rect 0 0 c.width 14 |>.setColor .white)
  Canvas.write (heldText held).toList 3 2 none

/-- The scrolling bars. -/
def app : App Bars where
  init _ := pure ()
  update b _ := do
    let held ← Step.ofExcept b.held
    let step := stepOf (held.contains .left) (held.contains .right)
    Backstage.changeApp fun s => ⟨s.offset + step, held⟩
  draw _ _ := do
    let s ← get
    Scene.draw (modify (·.setBlend .copy))
    drawBars s.canvas.width s.canvas.height s.app.offset 0 palette
    Scene.draw (drawHeld s.app.held)

end Bars

end Handheld.Demo
