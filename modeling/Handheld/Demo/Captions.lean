import Handheld.App
import Handheld.Number.Checked

/-!
# Text under a sliding box

A paragraph of wrapped text, a translucent box that slides to and fro under it, and the time since
the device started.
-/

namespace Handheld.Demo

/-- State of the text demo. -/
structure Captions where
  /-- Time since the device started, in microseconds, at the last update. -/
  uptime : UInt64
deriving DecidableEq

namespace Captions

/-- The demo before the first frame. -/
def initial : Captions := ⟨0⟩

instance : Inhabited Captions := ⟨initial⟩

/-- Distance of the text from the edges. -/
def margin : Int := 6

/-- Width of the box. -/
def boxWidth : Int := 60

/-- The paragraph. -/
def body : String :=
  "Everything on this screen is drawn into the back buffer, " ++
  "then handed to the display at vsync while the other buffer takes its place. " ++
  "Lines wrap at word boundaries; words too long for a line, like " ++
  "supercalifragilisticexpialidocious, are cut."

/-- The length of the box's track. -/
def span (width : Nat) : Int := max (width - boxWidth) 1

/-- The left edge of the box: the tick, read as a signed word, runs along the track and back. Every
step of the computation has to be a signed word. -/
def boxLeft (width : Nat) (tick : UInt32) : Except Panic Int := do
  let period ← Word32.mul 2 (span width)
  let place ← Word32.sub (tick.toInt32.toInt.tmod period) (span width)
  Word32.abs place

/-- A number with at least three digits. -/
def threeDigits (n : Nat) : String :=
  let digits := toString n
  String.ofList (List.replicate (3 - digits.length) '0') ++ digits

/-- The line with the time. -/
def uptimeText (us : Nat) : String :=
  "uptime " ++ toString (us / 1000000) ++ "." ++ threeDigits (us / 1000 % 1000) ++ "s"

/-- Cover the canvas. -/
def drawGround (c : Canvas) : Canvas := ((c.setBlend .copy).setColor (.rgb 20 30 60)).clear

/-- Draw the box and the text over it. -/
def drawBody (left : Int) (uptime : UInt64) : Step Canvas Unit := do
  let w : Int := (← get).width
  let h : Int := (← get).height
  modify fun c => (c.setBlend .alpha).setColor ⟨255, 160, 0, 96⟩
    |>.rect left margin boxWidth (h.tdiv 2) |>.setColor .white
  Canvas.write body.toList margin margin (some (w - 2 * margin))
  modify (·.setColor (.rgb 160 255 160))
  Canvas.write (uptimeText uptime.toNat).toList margin (h - 28) none

/-- The text demo. -/
def app : App Captions where
  init _ := pure ()
  update b _ := do
    let now ← Step.ofExcept b.now
    Backstage.changeApp fun _ => ⟨now.us⟩
  draw _ tick := do
    let s ← get
    Scene.draw (modify drawGround)
    let left ← Step.ofExcept (boxLeft s.canvas.width tick)
    Scene.draw (drawBody left s.app.uptime)

end Captions

end Handheld.Demo
