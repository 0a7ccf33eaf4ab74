import Handheld.App

/-!
# Pictures from the second core

Core 1 renders pictures, and core 0 copies the latest finished one to the canvas with its number
below it.
-/

namespace Handheld.Demo

/-- State of the two-core demo. -/
structure DualCore where
  /-- The number of the picture shown last. -/
  lastSeen : Option UInt64
deriving DecidableEq

namespace DualCore

/-- The demo before the first frame. -/
def initial : DualCore := ⟨none⟩

instance : Inhabited DualCore := ⟨initial⟩

/-- Where the demo's lines in the log come from. -/
def logTarget : String := "pfrun::demos::dual_core"

/-- The line below the picture. -/
def status : Option UInt64 → String
  | some number => "core 1 picture #" ++ toString number.toNat
  | none => "waiting for core 1"

/-- The column at which pictures start. -/
def left (width : Nat) : Int := ((width : Int) - Picture.width).tdiv 2

/-- Copy the shared picture to the canvas if there is one: the canvas, and the number of the picture
that it shows now. -/
def drawPicture (picture : Picture) (lastSeen : Option UInt64) (c : Canvas) :
    Canvas × Option UInt64 :=
  if picture.pixels.size = Picture.size then
    (c.blit picture.pixels Picture.width Picture.height (left c.width) 0, some picture.number)
  else (c, lastSeen)

/-- Write the status below the picture. -/
def drawStatus (lastSeen : Option UInt64) : Step Canvas Unit := do
  modify (·.setColor (.rgb 255 0 0))
  Canvas.write (status lastSeen).toList 3 (Picture.height + 6) none

/-- Draw the shared picture under its lock, and remember its number. -/
def showPicture (me : CoreId) : Step (Scene DualCore) Unit := do
  let s ← get
  match s.core1.picture.lock me with
  | .error e => throw (.panic (.misuse e))
  -- Core 1 gives the lock back within its turn, so this is no case that a frame meets.
  | .ok none => pure ()
  | .ok (some held) =>
    let (canvas, lastSeen) := drawPicture held.data s.app.lastSeen s.canvas
    let (released, picture) := held.unlock me
    -- What was drawn stays drawn, also if the release goes wrong.
    set ({ s with
      canvas
      app := ⟨lastSeen⟩
      core1 := { s.core1 with picture } } : Scene DualCore)
    match released with
    | .ok () => pure ()
    | .error e => throw (.panic (.misuse e))

/-- The two-core demo. -/
def app : App DualCore where
  init b := Scene.backstage do
    if ← Backstage.second SecondCore.takeRight then
      Backstage.write ⟨.info, logTarget, "starting the renderer on core 1"⟩
      Backstage.second (SecondCore.launchWithRight b .render)
    else
      Backstage.write ⟨.warn, logTarget, "core 1 is taken; the picture will stay blank"⟩
  update _ _ := pure ()
  draw b _ := do
    Scene.draw (modify fun c => ((c.setBlend .copy).setColor .black).clear)
    showPicture b.coreNumber
    let s ← get
    Scene.draw (drawStatus s.app.lastSeen)

end DualCore

end Handheld.Demo
