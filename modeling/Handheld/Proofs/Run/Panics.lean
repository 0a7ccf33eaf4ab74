import Handheld.Proofs.Demo.Captions
import Handheld.Proofs.Demo.Drawing
import Handheld.Proofs.Run.Kept
import Mathlib.Data.Nat.Digits.Defs

/-!
# What the demos can stop with

The demos throw nothing, and core 1 renders pictures or nothing in a run of them. So whatever stops
such a run is told by one of the texts that the device has of its own. These are short, so that
there is no screen on which the fault screen could not show them.

* `Panic.length_message_le`: the texts of the device are short.
* `Step.StopsOnly`: a computation comes to an end, and if it stops, then with panics of a kind.
* `Demo.stopsOnly_app`: the demos stop with panics of the device only.
* `SecondCore.Renders`: so does core 1, in all that the demos do with it.
-/

namespace Handheld

/-! ## The texts of the device -/

/-- The panic is one of the device: neither thrown by an application nor told by core 1. -/
def Panic.OfDevice : Panic → Prop
  | thrown _ | core1 _ => False
  | _ => True

/-- The number of a core has three digits at most. -/
theorem length_toString_core_le (core : CoreId) : (toString core.toNat).length ≤ 3 := by
  have hcore := core.toNat_lt
  exact Nat.repr_length core.toNat 3 (by decide) (by omega)

open Text (length_append_le) in
/-- A misuse is told in one sentence, two labels and at most three numbers of cores. -/
theorem Misuse.length_message_le (cause : Misuse) : cause.message.length ≤ 120 := by
  have howner : ∀ owner, (ownerText owner).length ≤ 3 := by
    intro owner
    cases owner with
    | none => decide
    | some core => exact length_toString_core_le core
  cases cause with
  | reentered core =>
    have hcore := length_toString_core_le core
    refine (length_append_le (length_append_le (length_append_le (length_append_le
      (length_append_le le_rfl hcore) le_rfl) hcore) le_rfl) hcore).trans ?_
    decide +kernel
  | notOwner owner core =>
    have hcore := length_toString_core_le core
    refine (length_append_le (length_append_le (length_append_le le_rfl (howner owner)) le_rfl)
      hcore).trans ?_
    decide +kernel

/-- The texts of the device are short. -/
theorem Panic.length_message_le {p : Panic} (h : p.OfDevice) : p.message.length ≤ 120 := by
  cases p with
  | thrown | core1 => exact h.elim
  | misuse cause => exact cause.length_message_le
  | overflow operation => cases operation <;> decide
  | _ => decide

/-! ## Computations that stop with some panics only -/

namespace Step

variable {ι σ τ α β : Type} {Q : Panic → Prop}

/-- The computation comes to an end, and if it stops, then with a panic of the kind. -/
def StopsOnly (Q : Panic → Prop) (step : Step σ α) : Prop :=
  ∀ s stop, (step.start s).1 = .error stop → ∃ p, stop = .panic p ∧ Q p

theorem stopsOnly_of_ok {step : Step σ α} (h : ∀ s, ∃ a, (step.start s).1 = .ok a) :
    StopsOnly Q step := by
  intro s stop hstop
  obtain ⟨a, ha⟩ := h s
  rw [ha] at hstop
  cases hstop

theorem stopsOnly_pure (a : α) : StopsOnly Q (pure a : Step σ α) :=
  stopsOnly_of_ok fun _ => ⟨a, rfl⟩

theorem stopsOnly_get : StopsOnly Q (get : Step σ σ) := stopsOnly_of_ok fun s => ⟨s, rfl⟩

theorem stopsOnly_modify (f : σ → σ) : StopsOnly Q (modify f : Step σ Unit) :=
  stopsOnly_of_ok fun _ => ⟨(), rfl⟩

theorem stopsOnly_throw {p : Panic} (h : Q p) : StopsOnly Q (throw (.panic p) : Step σ α) := by
  intro s stop hstop
  exact ⟨p, (Except.error.inj hstop).symm, h⟩

theorem stopsOnly_ofExcept {e : Except Panic α} (h : ∀ p, e = .error p → Q p) :
    StopsOnly Q (ofExcept e : Step σ α) := by
  cases e with
  | ok a => exact stopsOnly_of_ok fun _ => ⟨a, rfl⟩
  | error p => exact stopsOnly_throw (h p rfl)

theorem stopsOnly_bind {step : Step σ α} {next : α → Step σ β} (hstep : StopsOnly Q step)
    (hnext : ∀ a, StopsOnly Q (next a)) : StopsOnly Q (bind (m := Step σ) step next) := by
  intro s stop hstop
  rcases hstart : step.start s with ⟨first | a, m⟩
  · rw [start_bind_of_error hstart] at hstop
    obtain rfl := Except.error.inj hstop
    exact hstep s first (congrArg Prod.fst hstart)
  · rw [start_bind_of_ok hstart] at hstop
    exact hnext a m stop hstop

theorem stopsOnly_on {part : τ → σ} {put : τ → σ → τ} {step : Step σ α} (h : StopsOnly Q step) :
    StopsOnly Q (step.on part put) := fun t => h (part t)

end Step

/-- The callbacks of the application come to an end, and stop with panics of the kind only. -/
structure App.StopsOnly {σ : Type} (Q : Panic → Prop) (a : App σ) : Prop where
  init : ∀ b, (a.init b).StopsOnly Q
  update : ∀ b tick, (a.update b tick).StopsOnly Q
  draw : ∀ b tick, (a.draw b tick).StopsOnly Q

section Sessions

variable {σ : Type} {Q : Panic → Prop}

theorem stopsOnly_draw {α : Type} {step : Step Canvas α} (h : step.StopsOnly Q) :
    (Scene.draw step : Step (Scene σ) α).StopsOnly Q :=
  Step.stopsOnly_on h

theorem stopsOnly_backstage {callback : Board → Step (Backstage σ) Unit}
    (h : ∀ b, (callback b).StopsOnly Q) : (Session.backstage callback).StopsOnly Q :=
  Step.stopsOnly_bind Step.stopsOnly_get fun s => Step.stopsOnly_on (h s.board)

theorem stopsOnly_onScene {callback : Board → Step (Scene σ) Unit}
    (h : ∀ b, (callback b).StopsOnly Q) : (Session.onScene callback).StopsOnly Q :=
  Step.stopsOnly_bind Step.stopsOnly_get fun s => Step.stopsOnly_on (h s.board)

/-- The application inside a measured one stops as it does on its own. -/
theorem App.StopsOnly.inside {a : App σ} (h : a.StopsOnly Q) : (Measured.inside a).StopsOnly Q where
  init b := Step.stopsOnly_on (h.init b)
  update b tick := Step.stopsOnly_on (h.update b tick)
  draw b tick := Step.stopsOnly_on (h.draw b tick)

end Sessions

section

open Panic (OfDevice)

theorem ofDevice_of_bind {α β : Type} {e : Except Panic α} {f : α → Except Panic β}
    (he : ∀ p, e = .error p → OfDevice p) (hf : ∀ a p, f a = .error p → OfDevice p) (p : Panic)
    (h : (e >>= f) = .error p) : OfDevice p := by
  cases e with
  | ok a => exact hf a p h
  | error q => exact he p (congrArg Except.error (Except.error.inj h))

theorem ofDevice_of_map {α β : Type} {e : Except Panic α} {f : α → β}
    (he : ∀ p, e = .error p → OfDevice p) (p : Panic) (h : e.map f = .error p) : OfDevice p := by
  cases e with
  | ok a => cases h
  | error q => exact he p (congrArg Except.error (Except.error.inj h))

/-- Whoever asks the board stops only because there is no platform. -/
theorem Board.ofDevice_of_require {b : Board} (p : Panic) (h : b.require = .error p) :
    OfDevice p := by
  unfold require at h
  split at h
  · cases h
  · cases h
    trivial

theorem Word32.ofDevice_of_checked {operation : Arithmetic} {n : Int} (p : Panic)
    (h : checked operation n = .error p) : OfDevice p := by
  unfold checked at h
  split at h
  · cases h
  · cases h
    trivial

theorem Word64.ofDevice_of_add {m n : UInt64} (p : Panic) (h : add m n = .error p) :
    OfDevice p := by
  obtain ⟨-, rfl⟩ := add_eq_error_iff.1 h
  trivial

theorem Word32.ofDevice_of_abs {n : Int} (p : Panic) (h : abs n = .error p) : OfDevice p := by
  unfold abs at h
  split at h
  · exact ofDevice_of_checked p h
  · cases h

/-- A text stops only for the row of a line. -/
theorem Canvas.stopsOnly_write (text : List Char) (x y : Int) (wrap : Option Int) :
    (write text x y wrap).StopsOnly OfDevice := by
  intro c stop hstop
  rw [fst_start_write] at hstop
  split at hstop
  · cases hstop
  · exact ⟨_, (Except.error.inj hstop).symm, trivial⟩

/-- A record stops if a count or a time does not fit. -/
theorem stopsOnly_recordFrame {σ : Type} (b : Board) :
    (Measured.recordFrame b : Step (Backstage (Measured σ)) Unit).StopsOnly OfDevice := by
  have hrecord : ∀ now, (FrameStats.record now).StopsOnly OfDevice := by
    intro now
    refine Step.stopsOnly_bind Step.stopsOnly_get fun stats => ?_
    split
    · exact Step.stopsOnly_of_ok fun _ => ⟨(), rfl⟩
    · refine Step.stopsOnly_bind (Step.stopsOnly_ofExcept Word64.ofDevice_of_add) fun _ => ?_
      refine Step.stopsOnly_bind (Step.stopsOnly_of_ok fun _ => ⟨(), rfl⟩) fun _ => ?_
      refine Step.stopsOnly_bind (Step.stopsOnly_ofExcept Word64.ofDevice_of_add) fun _ => ?_
      exact Step.stopsOnly_of_ok fun _ => ⟨(), rfl⟩
  exact Step.stopsOnly_bind
    (Step.stopsOnly_ofExcept (ofDevice_of_map Board.ofDevice_of_require)) fun now =>
    Step.stopsOnly_on (hrecord now)

/-! ## The demos -/

namespace Demo

theorem Bars.stopsOnly_drawBars {σ : Type} (width height : Nat) (offset : Int32) (i : Nat)
    (colors : List Color) :
    (Bars.drawBars width height offset i colors : Step (Scene σ) Unit).StopsOnly OfDevice := by
  induction colors generalizing i with
  | nil => exact Step.stopsOnly_pure ()
  | cons color rest ih =>
    refine Step.stopsOnly_bind ?_ fun _ => ih (i + 1)
    refine Step.stopsOnly_bind (stopsOnly_draw (Step.stopsOnly_modify _)) fun _ => ?_
    exact Step.stopsOnly_bind (Step.stopsOnly_ofExcept Word32.ofDevice_of_checked)
      fun _ => stopsOnly_draw (Step.stopsOnly_modify _)

theorem Bars.stopsOnly_app : Bars.app.StopsOnly OfDevice where
  init _ := Step.stopsOnly_pure ()
  update _ _ := Step.stopsOnly_bind
    (Step.stopsOnly_ofExcept (ofDevice_of_map (ofDevice_of_map Board.ofDevice_of_require)))
    fun _ => Step.stopsOnly_modify _
  draw _ _ :=
    Step.stopsOnly_bind Step.stopsOnly_get fun _ =>
      Step.stopsOnly_bind (stopsOnly_draw (Step.stopsOnly_modify _)) fun _ =>
        Step.stopsOnly_bind (Bars.stopsOnly_drawBars _ _ _ _ _) fun _ =>
          stopsOnly_draw <| Step.stopsOnly_bind (Step.stopsOnly_modify _) fun _ =>
            Canvas.stopsOnly_write _ _ _ _

theorem Captions.ofDevice_of_boxLeft {width : Nat} {tick : UInt32} :
    ∀ p, boxLeft width tick = .error p → OfDevice p :=
  ofDevice_of_bind Word32.ofDevice_of_checked fun _ =>
    ofDevice_of_bind Word32.ofDevice_of_checked fun _ => Word32.ofDevice_of_abs

theorem Captions.stopsOnly_app : Captions.app.StopsOnly OfDevice where
  init _ := Step.stopsOnly_pure ()
  update _ _ := Step.stopsOnly_bind
    (Step.stopsOnly_ofExcept (ofDevice_of_map Board.ofDevice_of_require))
    fun _ => Step.stopsOnly_modify _
  draw _ _ :=
    Step.stopsOnly_bind Step.stopsOnly_get fun _ =>
      Step.stopsOnly_bind (stopsOnly_draw (Step.stopsOnly_modify _)) fun _ =>
        Step.stopsOnly_bind (Step.stopsOnly_ofExcept Captions.ofDevice_of_boxLeft) fun left =>
          stopsOnly_draw <| Step.stopsOnly_of_ok fun c => ⟨(), fst_start_drawBody left _ c⟩

/-- The lock of the shared picture tells of its misuse. -/
theorem DualCore.stopsOnly_showPicture (me : CoreId) :
    (DualCore.showPicture me).StopsOnly OfDevice := by
  refine Step.stopsOnly_bind Step.stopsOnly_get fun s => ?_
  split
  · exact Step.stopsOnly_throw trivial
  · exact Step.stopsOnly_pure ()
  · refine Step.stopsOnly_bind (Step.stopsOnly_of_ok fun _ => ⟨(), rfl⟩) fun _ => ?_
    split
    · exact Step.stopsOnly_pure ()
    · exact Step.stopsOnly_throw trivial

theorem DualCore.stopsOnly_app : DualCore.app.StopsOnly OfDevice where
  init b := by
    have hlaunch : (SecondCore.launchWithRight b .render).StopsOnly OfDevice := by
      unfold SecondCore.launchWithRight
      split
      · exact Step.stopsOnly_throw trivial
      · exact Step.stopsOnly_modify _
    have hright : SecondCore.takeRight.StopsOnly OfDevice :=
      Step.stopsOnly_of_ok fun c => ⟨!c.taken, rfl⟩
    refine Step.stopsOnly_on (Step.stopsOnly_bind (Step.stopsOnly_on hright) fun right => ?_)
    split
    · exact Step.stopsOnly_bind (Step.stopsOnly_modify _) fun _ => Step.stopsOnly_on hlaunch
    · exact Step.stopsOnly_modify _
  update _ _ := Step.stopsOnly_pure ()
  draw _ _ :=
    Step.stopsOnly_bind (stopsOnly_draw (Step.stopsOnly_modify _)) fun _ =>
      Step.stopsOnly_bind (DualCore.stopsOnly_showPicture _) fun _ =>
        Step.stopsOnly_bind Step.stopsOnly_get fun _ => stopsOnly_draw <|
          Step.stopsOnly_of_ok fun c => ⟨(), congrArg Prod.fst (start_drawStatus _ c)⟩

/-- The demos stop with panics of the device only. -/
theorem stopsOnly_app : Demo.app.StopsOnly OfDevice := by
  refine ⟨fun b => ?_, fun b tick => ?_, fun b tick => ?_⟩
  all_goals
    refine Step.stopsOnly_bind Step.stopsOnly_get fun s => ?_
    split
  · exact Step.stopsOnly_on (Bars.stopsOnly_app.init b)
  · exact Step.stopsOnly_on (Captions.stopsOnly_app.init b)
  · exact Step.stopsOnly_on (DualCore.stopsOnly_app.init b)
  · exact Step.stopsOnly_on (Bars.stopsOnly_app.update b tick)
  · exact Step.stopsOnly_on (Captions.stopsOnly_app.update b tick)
  · exact Step.stopsOnly_on (DualCore.stopsOnly_app.update b tick)
  · exact Step.stopsOnly_on (Bars.stopsOnly_app.draw b tick)
  · exact Step.stopsOnly_on (Captions.stopsOnly_app.draw b tick)
  · exact Step.stopsOnly_on (DualCore.stopsOnly_app.draw b tick)

end Demo

/-! ## Core 1 -/

namespace SecondCore

/-- Core 1 renders pictures, or has not been started, and what has stopped it is a panic of the
device. -/
structure Renders (c : SecondCore) : Prop where
  entry : ∀ entry, c.entry = some entry → entry = .render
  fault : ∀ text, c.fault = some text → ∃ p, OfDevice p ∧ text = p.message

theorem renders_of_idle {c : SecondCore} (h : c.Idle) : c.Renders := by
  refine ⟨fun entry hentry => ?_, fun text hfault => ?_⟩
  · rw [h.1] at hentry
    cases hentry
  · rw [h.2] at hfault
    cases hfault

/-- A fault of core 1 is short, also when it is raised again. -/
theorem Renders.length_core1Text_le {c : SecondCore} (h : c.Renders) {text : String}
    (hfault : c.fault = some text) : (Panic.core1Text text).length ≤ 140 := by
  obtain ⟨p, hp, rfl⟩ := h.fault text hfault
  exact (Text.length_append_le (Nat.le_refl _) (Panic.length_message_le hp)).trans (by decide)

/-- Rendering stops for a product that does not fit, or for the lock. -/
theorem ofDevice_of_renderer {r : Renderer} {shared : Mutex Picture} {p : Panic}
    (h : r.turn shared = .error p) : OfDevice p := by
  unfold Renderer.turn at h
  split at h
  · next q hrender =>
    obtain rfl := Except.error.inj h
    unfold Picture.render at hrender
    split at hrender
    · obtain rfl := Except.error.inj hrender
      trivial
    · cases hrender
  · split at h
    · obtain rfl := Except.error.inj h
      trivial
    · cases h
    · cases h

theorem renders_turn {c : SecondCore} (h : c.Renders) : c.turn.Renders := by
  refine ⟨fun entry hentry => h.entry entry (c.entry_turn ▸ hentry), fun text hfault => ?_⟩
  unfold turn at hfault
  cases hc : c.fault with
  | some first =>
    rw [hc] at hfault
    exact h.fault text (by simpa using hfault)
  | none =>
    cases hentry : c.entry with
    | none =>
      rw [hc, hentry] at hfault
      exact h.fault text hfault
    | some entry =>
      obtain rfl := h.entry entry hentry
      rw [hc, hentry] at hfault
      simp only at hfault
      split at hfault
      · cases hfault
      · next p hturn =>
        obtain rfl := Option.some.inj hfault
        exact ⟨p, ofDevice_of_renderer hturn, rfl⟩

/-- All that the demos start on core 1 is the renderer. -/
theorem outlives_renders : Demo.Outlives Renders where
  right _ h := ⟨h.entry, h.fault⟩
  picture _ _ h := ⟨h.entry, h.fault⟩
  renderer c h := by
    unfold start
    split
    · exact h
    · exact ⟨fun _ hentry => (Option.some.inj hentry).symm, h.fault⟩

end SecondCore

end

end Handheld
