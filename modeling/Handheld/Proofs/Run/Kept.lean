import Handheld.Demo.Basic
import Handheld.Proofs.Run.Stage

/-!
# What a run keeps of core 1

A property of core 1 that every callback and every turn keep holds throughout a run, also where a
stage stops half-way. A fault that has been recorded is such a property, and so is that core 1 was
never started.

* `Stage.core1_of_complete`: what callbacks and turns keep, completed stages keep.
* `SecondCore.fault_turn`, `SecondCore.idle_turn`: two properties that turns keep.
* `Demo.keeps_app`: what the demos keep.
-/

namespace Handheld

namespace SecondCore

/-- Core 1 was never started and has no fault. -/
def Idle (c : SecondCore) : Prop := c.entry = none ∧ c.fault = none

/-- A fault of core 1 stays. -/
theorem fault_turn {c : SecondCore} {message : String} (h : c.fault = some message) :
    c.turn.fault = some message := by
  unfold turn
  rw [h]
  exact h

/-- A core that was not started does nothing in its turn. -/
theorem idle_turn {c : SecondCore} (h : c.Idle) : c.turn.Idle := by
  unfold turn
  rw [h.1, h.2]
  exact h

/-- What a turn keeps, any number of turns keep. -/
theorem kept_run {P : SecondCore → Prop} (hturn : ∀ c, P c → P c.turn) {c : SecondCore} (n : Nat)
    (h : P c) : P (c.run n) := by
  induction n generalizing c with
  | zero => exact h
  | succ n ih => exact ih (hturn c h)

/-! ## Starting core 1 -/

variable {message : String}

theorem keepsFault_takeRight : takeRight.Keeps (·.fault = some message) := fun _ h => h

theorem keepsFault_launchWithRight (b : Board) (entry : Entry) :
    (launchWithRight b entry).Keeps (·.fault = some message) := by
  unfold launchWithRight
  split
  · exact Step.keeps_throw _
  · refine Step.keeps_modify fun c h => ?_
    rw [start]
    split
    · split <;> exact h
    · exact h

/-- To start core 1 does not take back its fault. -/
theorem keepsFault_launch (b : Board) (entry : Entry) :
    (launch b entry).Keeps (·.fault = some message) := by
  unfold launch
  split
  · exact Step.keeps_throw _
  · refine Step.keeps_bind keepsFault_takeRight fun right => ?_
    split
    · exact keepsFault_launchWithRight b entry
    · exact Step.keeps_throw _

end SecondCore

/-- The property of core 1 holds after every callback of the application, however it ends, if it
held before. -/
structure App.Keeps {σ : Type} (P : SecondCore → Prop) (a : App σ) : Prop where
  init : ∀ b, (a.init b).Keeps (P ·.core1)
  update : ∀ b tick, (a.update b tick).Keeps (P ·.core1)
  draw : ∀ b tick, (a.draw b tick).Keeps (P ·.core1)

/-- No callback of the application takes back a fault of core 1. The device offers no way to do
so. -/
def App.KeepsFault {σ : Type} (a : App σ) : Prop :=
  ∀ message, a.Keeps (·.fault = some message)

theorem keeps_backstage {σ : Type} {P : SecondCore → Prop} {step : Step (Backstage σ) Unit}
    (h : step.Keeps (P ·.core1)) : (Scene.backstage step).Keeps (P ·.core1) :=
  fun s hs => h s.toBackstage hs

/-- Drawing leaves core 1 alone. -/
theorem keeps_draw {σ α : Type} {P : SecondCore → Prop} (step : Step Canvas α) :
    (Scene.draw step : Step (Scene σ) α).Keeps (P ·.core1) :=
  fun _ hs => hs

namespace Stage

variable {σ : Type} {a : App σ} {s s' : Session (Measured σ)} {P : SecondCore → Prop}

theorem keeps_checkCore1 : (Measured.checkCore1 : Step (Backstage (Measured σ)) Unit).Keeps
    (P ·.core1) := by
  refine Step.keeps_bind Step.keeps_get fun s => ?_
  split
  · exact Step.keeps_throw _
  · exact Step.keeps_pure _

theorem keeps_recordFrame (b : Board) :
    (Measured.recordFrame b : Step (Backstage (Measured σ)) Unit).Keeps (P ·.core1) :=
  Step.keeps_bind (Step.keeps_ofExcept _) fun _ _ h => h

/-- What callbacks and turns keep, every stage keeps, whether it stops or not. -/
theorem core1_perform (happ : a.Keeps P) (hturn : ∀ c, P c → P c.turn) (i : Stage)
    (h : P s.core1) : P ((perform a i).start s).2.core1 := by
  cases i with
  | init => exact happ.init s.board _ h
  | update tick => exact happ.update s.board tick _ h
  | draw tick => exact happ.draw s.board tick _ h
  | check => exact keeps_checkCore1 _ h
  | record => exact keeps_recordFrame s.board _ h
  | bar => exact h
  | fault message => exact h
  | turn => exact hturn _ h
  | wait =>
    rw [perform, Session.onConsole, Step.start_on, Console.start_waitRefresh]
    split
    · split
      · exact SecondCore.kept_run hturn _ h
      · exact h
    · exact h
  | present =>
    rw [perform, Session.onConsole, Step.start_on, Console.start_flip]
    split
    · split
      · split <;> exact h
      · exact h
    · exact h

/-- What callbacks and turns keep, completed stages keep. -/
theorem core1_of_complete (happ : a.Keeps P) (hturn : ∀ c, P c → P c.turn) {stages : List Stage}
    (hstages : Complete a stages s s') (h : P s.core1) : P s'.core1 := by
  refine hstages.invariant (P := (P ·.core1)) (fun i _ m m' hm hi => ?_) h
  have := core1_perform (i := i) happ hturn hm
  rwa [hi] at this

/-- A fault of core 1 that callbacks do not take back is there after any completed stages. -/
theorem fault_of_complete {message : String} (happ : a.KeepsFault) {stages : List Stage}
    (hstages : Complete a stages s s') (h : s.core1.fault = some message) :
    s'.core1.fault = some message :=
  core1_of_complete (P := (·.fault = some message)) (happ message)
    (fun _ => SecondCore.fault_turn) hstages h

end Stage

/-! ## The demos -/

namespace Demo

theorem Bars.keeps_drawBars {σ : Type} {P : SecondCore → Prop} (width height : Nat)
    (offset : Int32) (i : Nat) (colors : List Color) :
    (Bars.drawBars width height offset i colors : Step (Scene σ) Unit).Keeps (P ·.core1) := by
  induction colors generalizing i with
  | nil => exact Step.keeps_pure ()
  | cons color rest ih =>
    refine Step.keeps_bind ?_ fun _ => ih (i + 1)
    exact Step.keeps_bind (keeps_draw _) fun _ =>
      Step.keeps_bind (Step.keeps_ofExcept _) fun _ => keeps_draw _

/-- The bars leave core 1 alone. -/
theorem Bars.keeps_app (P : SecondCore → Prop) : Bars.app.Keeps P where
  init _ := Step.keeps_pure ()
  update _ _ := Step.keeps_bind (Step.keeps_ofExcept _) fun _ _ h => h
  draw _ _ := Step.keeps_bind Step.keeps_get fun _ => Step.keeps_bind (keeps_draw _) fun _ =>
    Step.keeps_bind (Bars.keeps_drawBars _ _ _ _ _) fun _ => keeps_draw _

/-- The text leaves core 1 alone. -/
theorem Captions.keeps_app (P : SecondCore → Prop) : Captions.app.Keeps P where
  init _ := Step.keeps_pure ()
  update _ _ := Step.keeps_bind (Step.keeps_ofExcept _) fun _ _ h => h
  draw _ _ := Step.keeps_bind Step.keeps_get fun _ => Step.keeps_bind (keeps_draw _) fun _ =>
    Step.keeps_bind (Step.keeps_ofExcept _) fun _ => keeps_draw _

/-- The property outlives what the demos do to core 1: they ask for the right, start the renderer and
take pictures. -/
structure Outlives (P : SecondCore → Prop) : Prop where
  right : ∀ c, P c → P { c with taken := true }
  renderer : ∀ c, P c → P (c.start .render)
  picture : ∀ c picture, P c → P { c with picture }

variable {P : SecondCore → Prop}

/-- Only the picture of core 1 is changed, and its lock. -/
theorem DualCore.keeps_showPicture (hP : Outlives P) (me : CoreId) :
    (DualCore.showPicture me).Keeps (P ·.core1) := by
  intro s h
  rw [DualCore.showPicture, Step.start_bind, Step.start_get]
  simp only
  split
  · exact h
  · exact h
  · rw [Step.start_bind, Step.start_set]
    simp only
    split <;> exact hP.picture _ _ h

/-- The renderer is started with the right in hand, or not at all. -/
theorem DualCore.keeps_app (hP : Outlives P) : DualCore.app.Keeps P := by
  refine ⟨fun b => ?_, fun _ _ => Step.keeps_pure (), fun b _ => ?_⟩
  · have htake : (Backstage.second SecondCore.takeRight : Step (Backstage DualCore) Bool).Keeps
        (P ·.core1) := fun _ h => hP.right _ h
    have hlaunch : (SecondCore.launchWithRight b .render).Keeps P := by
      unfold SecondCore.launchWithRight
      split
      · exact Step.keeps_throw _
      · refine Step.keeps_modify fun c h => ?_
        split
        · exact hP.renderer c h
        · exact h
    refine keeps_backstage (Step.keeps_bind htake fun right => ?_)
    split
    · exact Step.keeps_bind (fun _ h => h) fun _ _ h => hlaunch _ h
    · exact fun _ h => h
  · exact Step.keeps_bind (keeps_draw _) fun _ =>
      Step.keeps_bind (DualCore.keeps_showPicture hP _) fun _ =>
        Step.keeps_bind Step.keeps_get fun _ => keeps_draw _

/-- The bars and the text leave core 1 alone, so that the pictures decide. -/
theorem keeps_app (hP : Outlives P) : Demo.app.Keeps P := by
  have hbars := Bars.keeps_app P
  have htext := Captions.keeps_app P
  have hpictures := DualCore.keeps_app hP
  refine ⟨fun b => ?_, fun b tick => ?_, fun b tick => ?_⟩
  all_goals
    refine Step.keeps_bind Step.keeps_get fun s => ?_
    split
  · exact fun _ h => hbars.init b _ h
  · exact fun _ h => htext.init b _ h
  · exact fun _ h => hpictures.init b _ h
  · exact fun _ h => hbars.update b tick _ h
  · exact fun _ h => htext.update b tick _ h
  · exact fun _ h => hpictures.update b tick _ h
  · exact fun _ h => hbars.draw b tick _ h
  · exact fun _ h => htext.draw b tick _ h
  · exact fun _ h => hpictures.draw b tick _ h

/-- No demo takes back a fault of core 1. -/
theorem keepsFault_app : Demo.app.KeepsFault := by
  refine fun message => keeps_app ⟨fun _ h => h, fun c h => ?_, fun _ _ h => h⟩
  unfold SecondCore.start
  split <;> exact h

end Demo

end Handheld
