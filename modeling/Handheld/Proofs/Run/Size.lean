import Handheld.Proofs.Console.Buffers
import Handheld.Proofs.Demo.Drawing
import Handheld.Proofs.Run.Kept
import Handheld.Proofs.Run.Progress

/-!
# What a run keeps of the screen

A callback that draws gets a canvas and can draw on it, but has no way to make it larger or smaller.
So both frames of a screen keep their size throughout a run, also where a stage stops half-way.

* `Stage.hasSize_perform`: every stage keeps the size of both frames.
* `Demo.keepsSize_app`: the demos keep the size of the canvas.
-/

namespace Handheld

/-- The canvas has the size, negative numbers counted as zero. -/
def Canvas.HasSize (c : Canvas) (w h : Int) : Prop := c.frame.HasSize w h

variable {w h : Int}

theorem Canvas.HasSize.of_eq {c c' : Canvas} (hc : c.HasSize w h) (hwidth : c'.width = c.width)
    (hheight : c'.height = c.height) : c'.HasSize w h :=
  ⟨hwidth.trans hc.1, hheight.trans hc.2⟩

/-- No command changes the size of the canvas, however it ends. -/
theorem Canvas.keepsSize_exec (command : Command) : (exec command).Keeps (·.HasSize w h) :=
  fun c hc => hc.of_eq (width_exec c command) (height_exec c command)

theorem Canvas.keepsSize_write (text : List Char) (x y : Int) (wrap : Option Int) :
    (write text x y wrap).Keeps (·.HasSize w h) :=
  keepsSize_exec (.text text x y wrap)

theorem Console.keepsSize_paintFault (message : String) :
    (paintFault message).Keeps (·.HasSize w h) :=
  Step.keeps_bind (Step.keeps_modify fun _ hc => hc) fun _ =>
    Step.keeps_bind Step.keeps_get fun _ => Canvas.keepsSize_write _ _ _ _

/-- The callbacks that draw keep the size of the canvas, however they end. -/
structure App.KeepsSize {σ : Type} (a : App σ) (w h : Int) : Prop where
  init : ∀ b, (a.init b).Keeps (·.canvas.HasSize w h)
  draw : ∀ b tick, (a.draw b tick).Keeps (·.canvas.HasSize w h)

/-- A drawing that keeps the size of the canvas keeps it in the scene. -/
theorem keepsSize_draw {σ α : Type} {step : Step Canvas α} (hstep : step.Keeps (·.HasSize w h)) :
    (Scene.draw step : Step (Scene σ) α).Keeps (·.canvas.HasSize w h) :=
  fun s hs => hstep s.canvas hs

namespace Stage

variable {σ : Type} {a : App σ} {s s' : Session (Measured σ)} {stages : List Stage}

/-- A callback that draws reaches the frame to draw on, and not the one that is shown. -/
theorem hasSize_onScene {σ : Type} {s : Session σ} (callback : Board → Step (Scene σ) Unit)
    (hcallback : (callback s.board).Keeps (·.canvas.HasSize w h)) (hs : s.screen.HasSize w h) :
    ((Session.onScene callback).start s).2.screen.HasSize w h :=
  ⟨hcallback ⟨⟨s.app, s.core1, s.log⟩, s.screen.canvas⟩ hs.1, hs.2⟩

theorem keepsSize_drawBar (text : String) :
    (Measured.drawBar text).Keeps (·.HasSize w h) :=
  Step.keeps_bind Step.keeps_get fun _ =>
    Step.keeps_bind (Step.keeps_modify fun _ hc => hc.of_eq (Canvas.width_rect ..)
      (Canvas.height_rect ..)) fun _ => Canvas.keepsSize_write _ _ _ _

theorem keepsSize_drawStats :
    (Measured.drawStats : Step (Scene (Measured σ)) Unit).Keeps (·.canvas.HasSize w h) :=
  Step.keeps_bind Step.keeps_get fun _ => keepsSize_draw (keepsSize_drawBar _)

/-- The application inside a measured one keeps the size if it does so on its own. -/
theorem keepsSize_inside (happ : a.KeepsSize w h) : (Measured.inside a).KeepsSize w h where
  init b s hs := happ.init b { s with app := s.app.inner } hs
  draw b tick s hs := happ.draw b tick { s with app := s.app.inner } hs

/-- Every stage keeps the size of both frames, whether it stops or not. -/
theorem hasSize_perform (happ : a.KeepsSize w h) (i : Stage) (hs : s.screen.HasSize w h) :
    ((perform a i).start s).2.screen.HasSize w h := by
  cases i with
  | init => exact hasSize_onScene (Measured.inside a).init ((keepsSize_inside happ).init _) hs
  | draw tick =>
    exact hasSize_onScene ((Measured.inside a).draw · tick) ((keepsSize_inside happ).draw _ tick) hs
  | bar => exact hasSize_onScene (fun _ => Measured.drawStats) keepsSize_drawStats hs
  | update | record | turn => exact hs
  | check =>
    rw [start_check]
    split <;> exact hs
  | fault message => exact ⟨Console.keepsSize_paintFault message s.screen.canvas hs.1, hs.2⟩
  | wait =>
    rw [perform, Session.onConsole, Step.start_on, Console.start_waitRefresh]
    split
    · split <;> exact hs
    · exact hs
  -- A flip exchanges two frames of the same size, if it does not stop.
  | present =>
    rw [perform, Session.onConsole, Step.start_on, Console.start_flip]
    split
    · split
      · split
        · exact ⟨hs.2, hs.1⟩
        · exact hs
      · exact ⟨hs.2, hs.1⟩
    · exact hs

theorem hasSize_of_complete (happ : a.KeepsSize w h) (hstages : Complete a stages s s')
    (hs : s.screen.HasSize w h) : s'.screen.HasSize w h := by
  refine hstages.invariant (P := (·.screen.HasSize w h)) (fun i _ m m' hm hi => ?_) hs
  have := hasSize_perform happ i hm
  rwa [hi] at this

end Stage

/-! ## The demos -/

namespace Demo

theorem Bars.keepsSize_drawBars {σ : Type} (width height : Nat) (offset : Int32) (i : Nat)
    (colors : List Color) :
    (Bars.drawBars width height offset i colors : Step (Scene σ) Unit).Keeps
      (·.canvas.HasSize w h) := by
  induction colors generalizing i with
  | nil => exact Step.keeps_pure ()
  | cons color rest ih =>
    refine Step.keeps_bind ?_ fun _ => ih (i + 1)
    refine Step.keeps_bind (keepsSize_draw (Step.keeps_modify fun _ hc =>
      hc.of_eq (Canvas.width_rect ..) (Canvas.height_rect ..))) fun _ => ?_
    exact Step.keeps_bind (Step.keeps_ofExcept _) fun _ => keepsSize_draw (Step.keeps_modify
      fun _ hc => hc.of_eq (Canvas.width_rect ..) (Canvas.height_rect ..))

theorem Bars.keepsSize_drawHeld (held : List Button) :
    (Bars.drawHeld held).Keeps (·.HasSize w h) :=
  Step.keeps_bind (Step.keeps_modify fun _ hc => hc.of_eq (Canvas.width_rect ..)
    (Canvas.height_rect ..)) fun _ => Canvas.keepsSize_write _ _ _ _

theorem Bars.keepsSize_app : Bars.app.KeepsSize w h where
  init _ := Step.keeps_pure ()
  draw _ _ := Step.keeps_bind Step.keeps_get fun _ =>
    Step.keeps_bind (keepsSize_draw (Canvas.keepsSize_exec (.setBlend .copy))) fun _ =>
      Step.keeps_bind (Bars.keepsSize_drawBars _ _ _ _ _) fun _ =>
        keepsSize_draw (Bars.keepsSize_drawHeld _)

theorem Captions.keepsSize_drawBody (left : Int) (uptime : UInt64) :
    (Captions.drawBody left uptime).Keeps (·.HasSize w h) :=
  Step.keeps_bind Step.keeps_get fun _ => Step.keeps_bind Step.keeps_get fun _ =>
    Step.keeps_bind (Step.keeps_modify fun _ hc => hc.of_eq (Canvas.width_rect ..)
      (Canvas.height_rect ..)) fun _ =>
      Step.keeps_bind (Canvas.keepsSize_write _ _ _ _) fun _ =>
        Step.keeps_bind (Step.keeps_modify fun _ hc => hc) fun _ =>
          Canvas.keepsSize_write _ _ _ _

theorem Captions.keepsSize_app : Captions.app.KeepsSize w h where
  init _ := Step.keeps_pure ()
  draw _ _ := Step.keeps_bind Step.keeps_get fun _ =>
    Step.keeps_bind (keepsSize_draw (Step.keeps_modify fun _ hc => hc)) fun _ =>
      Step.keeps_bind (Step.keeps_ofExcept _) fun _ =>
        keepsSize_draw (Captions.keepsSize_drawBody _ _)

/-- A picture is copied to the canvas, or nothing is drawn. -/
theorem DualCore.keepsSize_showPicture (me : CoreId) :
    (DualCore.showPicture me).Keeps (·.canvas.HasSize w h) := by
  intro s hs
  have hdrawn : ∀ picture, (drawPicture picture s.app.lastSeen s.canvas).1.HasSize w h :=
    fun picture => hs.of_eq (width_drawPicture ..) (height_drawPicture ..)
  rw [DualCore.showPicture, Step.start_bind, Step.start_get]
  simp only
  split
  · exact hs
  · exact hs
  · rw [Step.start_bind, Step.start_set]
    simp only
    split <;> exact hdrawn _

theorem DualCore.keepsSize_app : DualCore.app.KeepsSize w h where
  init _ _ hs := hs
  draw _ _ := Step.keeps_bind (keepsSize_draw (Step.keeps_modify fun _ hc => hc)) fun _ =>
    Step.keeps_bind (DualCore.keepsSize_showPicture _) fun _ =>
      Step.keeps_bind Step.keeps_get fun _ => keepsSize_draw <|
        Step.keeps_bind (Step.keeps_modify fun _ hc => hc) fun _ =>
          Canvas.keepsSize_write _ _ _ _

/-- The demos draw on the canvas that they get. -/
theorem keepsSize_app : Demo.app.KeepsSize w h := by
  refine ⟨fun b => ?_, fun b tick => ?_⟩
  all_goals
    refine Step.keeps_bind Step.keeps_get fun s => ?_
    split
  · exact fun _ hs => Bars.keepsSize_app.init b _ hs
  · exact fun _ hs => Captions.keepsSize_app.init b _ hs
  · exact fun _ hs => DualCore.keepsSize_app.init b _ hs
  · exact fun _ hs => Bars.keepsSize_app.draw b tick _ hs
  · exact fun _ hs => Captions.keepsSize_app.draw b tick _ hs
  · exact fun _ hs => DualCore.keepsSize_app.draw b tick _ hs

end Demo

end Handheld
