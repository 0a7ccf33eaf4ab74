import Handheld.Demo.Bars
import Handheld.Demo.Captions
import Handheld.Demo.DualCore

/-!
# The demos

The demos that can be chosen on the command line, as one application whose state tells which demo it
is.
-/

namespace Handheld

/-- The demos. -/
inductive Demo where
  /-- Scrolling color bars. -/
  | bars
  /-- Wrapped text under a translucent box. -/
  | text
  /-- Pictures rendered by the second core. -/
  | dualCore
deriving DecidableEq, Repr

namespace Demo

/-- The name of a demo in the log. -/
def title : Demo → String
  | bars => "Bars"
  | text => "Text"
  | dualCore => "DualCore"

/-- The name of a demo on the command line. -/
def name : Demo → String
  | bars => "bars"
  | text => "text"
  | dualCore => "dual-core"

/-- The state of a running demo. -/
inductive State where
  | bars (s : Bars)
  | text (s : Captions)
  | dualCore (s : DualCore)
deriving DecidableEq

/-- A demo before its first frame. -/
def build : Demo → State
  | bars => .bars .initial
  | text => .text .initial
  | dualCore => .dualCore .initial

/-- The demos as one application. -/
def app : App State where
  init b := do
    match (← get).app with
    | .bars s => Scene.within (fun _ => s) (fun _ s => .bars s) (Bars.app.init b)
    | .text s => Scene.within (fun _ => s) (fun _ s => .text s) (Captions.app.init b)
    | .dualCore s => Scene.within (fun _ => s) (fun _ s => .dualCore s) (DualCore.app.init b)
  update b tick := do
    match (← get).app with
    | .bars s => Backstage.within (fun _ => s) (fun _ s => .bars s) (Bars.app.update b tick)
    | .text s => Backstage.within (fun _ => s) (fun _ s => .text s) (Captions.app.update b tick)
    | .dualCore s =>
      Backstage.within (fun _ => s) (fun _ s => .dualCore s) (DualCore.app.update b tick)
  draw b tick := do
    match (← get).app with
    | .bars s => Scene.within (fun _ => s) (fun _ s => .bars s) (Bars.app.draw b tick)
    | .text s => Scene.within (fun _ => s) (fun _ s => .text s) (Captions.app.draw b tick)
    | .dualCore s => Scene.within (fun _ => s) (fun _ s => .dualCore s) (DualCore.app.draw b tick)

end Demo

end Handheld
