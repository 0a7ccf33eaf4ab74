import Handheld.Measured
import Handheld.Proofs.Console.FaultScreen
import Handheld.Proofs.Sequence

/-!
# The stages of a measured run

A run of a measured application as a list of stages, which are done one after the other until one of
them stops. Core 1 goes on between any two of them, so a timeline of a run may hold turns of core 1
at any place.

* `schedule`: the stages of a run, in order.
* `runAlong`: a run along a timeline; along its schedule it is the run of the application itself
  (`runMeasured_eq_runAlong`).
* `frame_app`, `run_app`: a frame of a measured application, and a run, taken apart into stages.
-/

namespace Handheld

/-- One thing that is done in a measured run. -/
inductive Stage where
  /-- The application's `init`. -/
  | init
  /-- Look whether core 1 has stopped. -/
  | check
  /-- Record the start of a frame. -/
  | record
  /-- The application's `update`. -/
  | update (tick : UInt32)
  /-- The application's `draw`. -/
  | draw (tick : UInt32)
  /-- Draw the bar with the numbers. -/
  | bar
  /-- Wait for the refresh. -/
  | wait
  /-- Hand the drawn frame to the display. -/
  | present
  /-- Paint the fault screen. -/
  | fault (message : String)
  /-- Core 1 takes a turn meanwhile. -/
  | turn
deriving DecidableEq, Repr

namespace Stage

/-- The stages of one frame. -/
def frame (tick : UInt32) : List Stage :=
  [.check, .record, .update tick, .draw tick, .bar, .wait, .present]

/-- The stages of a run of `n` frames: `init` once, and then frame after frame. -/
def schedule (n : Nat) : List Stage :=
  .init :: (List.range n).flatMap fun t => frame (UInt32.ofNat t)

variable {σ : Type}

/-- Do one stage. -/
def perform (a : App σ) : Stage → Step (Session (Measured σ)) Unit
  | .init => Session.onScene (Measured.inside a).init
  | .check => Session.backstage fun _ => Measured.checkCore1
  | .record => Session.backstage Measured.recordFrame
  | .update tick => Session.backstage ((Measured.inside a).update · tick)
  | .draw tick => Session.onScene ((Measured.inside a).draw · tick)
  | .bar => Session.onScene fun _ => Measured.drawStats
  | .wait => Session.onConsole Console.waitRefresh
  | .present => Session.onConsole Console.flip
  | .fault message => Session.onConsole (Console.draw (Console.paintFault message))
  | .turn => modify fun s => { s with core1 := s.core1.turn }

/-- The stages complete, and lead from one state of the session to the other. -/
abbrev Complete (a : App σ) (stages : List Stage) (s s' : Session (Measured σ)) : Prop :=
  Step.Completes (perform a) stages s s'

/-- A run along a timeline, and the report on how it ended. -/
def runAlong (a : App σ) (timeline : List Stage) : Step (Session (Measured σ)) (Option String) := do
  let outcome ← (Step.each (perform a) timeline).caught
  Session.report outcome

/-! ## A run is its schedule -/

/-- A callback that does not draw may be split where it goes on. -/
theorem backstage_bind (first second : Board → Step (Backstage σ) Unit) :
    (Session.backstage fun b => first b >>= fun _ => second b : Step (Session σ) Unit) =
      Session.backstage first >>= fun _ => Session.backstage second := by
  refine Step.eq_of_start_eq fun s => ?_
  simp only [Session.backstage, Step.start_bind, Step.start_get, Step.start_on]
  rcases (first s.board).start _ with ⟨_ | _, m⟩ <;> rfl

/-- A callback that draws may be split where it goes on. -/
theorem onScene_bind (first second : Board → Step (Scene σ) Unit) :
    (Session.onScene fun b => first b >>= fun _ => second b : Step (Session σ) Unit) =
      Session.onScene first >>= fun _ => Session.onScene second := by
  refine Step.eq_of_start_eq fun s => ?_
  simp only [Session.onScene, Step.start_bind, Step.start_get, Step.start_on]
  rcases (first s.board).start _ with ⟨_ | _, m⟩ <;> rfl

/-- The update of a measured application is a check and a record ahead of the update inside. -/
theorem backstage_update_app (a : App σ) (tick : UInt32) :
    Session.backstage ((Measured.app a).update · tick) =
      Step.each (perform a) [.check, .record, .update tick] := by
  rw [Step.each_cons, Step.each_cons, Step.each_singleton]
  refine (backstage_bind (fun _ => Measured.checkCore1) fun b => do
    Measured.recordFrame b
    (Measured.inside a).update b tick).trans ?_
  rw [backstage_bind Measured.recordFrame]
  rfl

/-- The drawing of a measured application is that of the application inside with the bar on top. -/
theorem onScene_draw_app (a : App σ) (tick : UInt32) :
    Session.onScene ((Measured.app a).draw · tick) =
      Step.each (perform a) [.draw tick, .bar] := by
  rw [Step.each_cons, Step.each_singleton]
  exact onScene_bind ((Measured.inside a).draw · tick) fun _ => Measured.drawStats

/-- A frame of a measured application is done stage by stage. -/
theorem frame_app (a : App σ) (tick : UInt32) :
    Session.frame (Measured.app a) tick = Step.each (perform a) (frame tick) := by
  have hparts : frame tick = [Stage.check, .record, .update tick] ++
      ([Stage.draw tick, .bar] ++ [Stage.wait, .present]) := rfl
  rw [hparts, Step.each_append, Step.each_append, ← backstage_update_app, ← onScene_draw_app,
    Step.each_cons, Step.each_singleton]
  rfl

/-- Frames are done one after the other, each with the next tick. -/
theorem frames_app (a : App σ) (tick : UInt32) (n : Nat) :
    Session.frames (Measured.app a) tick n =
      Step.each (perform a) ((List.range n).flatMap fun t => frame (tick + UInt32.ofNat t)) := by
  induction n generalizing tick with
  | zero => rfl
  | succ n ih =>
    have hticks : (fun t => frame (tick + UInt32.ofNat (t + 1))) =
        fun t => frame (tick + 1 + UInt32.ofNat t) := by
      funext t
      rw [UInt32.ofNat_add, UInt32.add_assoc, UInt32.add_comm (UInt32.ofNat t)]
      rfl
    rw [Session.frames, frame_app, ih, List.range_succ_eq_map, List.flatMap_cons,
      List.flatMap_map, hticks, Step.each_append]
    simp

/-- A run of a measured application is done as its schedule says. -/
theorem run_app (a : App σ) (n : Nat) :
    Session.run (Measured.app a) n = Step.each (perform a) (schedule n) := by
  have hframes := frames_app a 0 n
  simp only [UInt32.zero_add] at hframes
  rw [Session.run, hframes]
  rfl

/-- The run of a measured application is the run along its schedule. -/
theorem runMeasured_eq_runAlong (a : App σ) (n : Nat) :
    Session.runMeasured a n = runAlong a (schedule n) := by
  rw [Session.runMeasured, run_app]
  rfl

end Stage

end Handheld
