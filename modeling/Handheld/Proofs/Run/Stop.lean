import Handheld.Proofs.Console.FaultPixels
import Handheld.Proofs.Run.Kept
import Handheld.Proofs.Run.Progress

/-!
# Stops of the application

A measured run whose application may stop in any callback, while core 1 does not stop.

* `run_ends`: the run completes, or it stops in a callback.
* `runMeasured_of_complete`: a run that completes returns nothing and shows nothing more.
* `runMeasured_of_stop`: a run that stops in a callback shows the fault screen as one more frame.
* `runMeasured_of_not_fits`: unless the text of the stop cannot be drawn, and then it shows nothing.
* `runMeasured_shows_every_stop`: all of it together.
-/

namespace Handheld.Stage

variable {σ : Type} {a : App σ} {n : Nat} {s m m' : Session (Measured σ)}

/-- Core 1 has not stopped in any state that a run of `n` frames comes to. -/
def Core1GoesOn (a : App σ) (n : Nat) (s : Session (Measured σ)) : Prop :=
  ∀ done m, done <+: schedule n → Complete a done s m → m.core1.fault = none

/-- Core 1 does not stop while nobody starts it. -/
theorem core1GoesOn_of_idle (happ : a.Keeps SecondCore.Idle) (h : s.core1.Idle) :
    Core1GoesOn a n s := fun _ _ _ hdone =>
  (core1_of_complete happ (fun _ => SecondCore.idle_turn) hdone h).2

/-- While the clock does not run back, all frames can be counted and core 1 does not stop, a run
completes or stops in a callback. -/
theorem run_ends (hsteady : Steady (schedule n) s) (hfault : Core1GoesOn a n s) :
    (∃ m, Complete a (schedule n) s m) ∨
      ∃ k done i m stop m', Place n k done i ∧ Complete a done s m ∧
        (perform a i).start m = (.error stop, m') := by
  rcases Step.completes_or_stops (perform a) (schedule n) s with
    hcomplete | ⟨done, i, rest, m, stop, m', hschedule, hdone, hstop⟩
  · exact .inl hcomplete
  have hm : Steady (i :: rest) m := steady_of_complete (hschedule ▸ hsteady) hdone
  -- A check stops for a fault of core 1 only, and everything else but a callback goes on.
  have hcheck : i ≠ .check := by
    rintro rfl
    rw [start_check, hfault done m ⟨_, hschedule.symm⟩ hdone] at hstop
    cases hstop
  have hnofault : ∀ message, i ≠ .fault message := by
    rintro message rfl
    exact fault_not_mem_schedule message n (hschedule ▸ List.mem_append_right _ List.mem_cons_self)
  have hcallback : i.isCallback := by
    by_contra hno
    obtain ⟨_, hok⟩ := goes_on (a := a) hm (eq_false_of_ne_true hno) hcheck hnofault
    rw [hok] at hstop
    cases hstop
  obtain ⟨k, hplace⟩ := place_of_callback hschedule hcallback
  exact .inr ⟨k, done, i, m, stop, m', hplace, hdone, hstop⟩

/-- A run that completes returns nothing and shows nothing more. -/
theorem runMeasured_of_complete (hrun : s.board.Running) (hroom : s.board.RoomFor (n + 1))
    (hfault : Core1GoesOn a n s) (h : Complete a (schedule n) s m) :
    (Session.runMeasured a n).start s = (.ok none, m) ∧ Counted n n s m := by
  have hcounted := counted_of_complete hrun h
  rw [count_wait_schedule, count_present_schedule] at hcounted
  have hnone : endText m (.ok ()) = none := by
    rw [endText, hfault _ m List.prefix_rfl h]
    rfl
  have hreport := start_report (.ok ()) hcounted.running (hcounted.roomFor hroom)
    fun text htext => absurd (hnone.symm.trans htext) nofun
  rw [runMeasured_eq_runAlong, start_runAlong (.ok ()) h, hreport, hnone]
  exact ⟨rfl, hcounted⟩

/-- Before a callback as many refreshes were waited for, and as many frames shown, as there were
whole frames. -/
theorem counted_of_place {k : Nat} {done : List Stage} {i : Stage} (hrun : s.board.Running)
    (hplace : Place n k done i) (hdone : Complete a done s m) : Counted k k s m := by
  have hcounted := counted_of_complete hrun hdone
  rwa [hplace.count_wait, hplace.count_present] at hcounted

/-- A callback that stops leaves the board, the frame that is shown and the counters alone. -/
theorem counted_of_stop {k : Nat} {done : List Stage} {i : Stage} {stop : Stop}
    (hrun : s.board.Running) (hplace : Place n k done i) (hdone : Complete a done s m)
    (hstop : (perform a i).start m = (.error stop, m')) :
    m'.board = m.board ∧ m'.screen.front = m.screen.front ∧ Counted k k s m' := by
  have hm := counted_of_place hrun hplace hdone
  have hwait : i ≠ .wait := by
    cases hplace <;> exact Stage.noConfusion
  have hpresent : i ≠ .present := by
    cases hplace <;> exact Stage.noConfusion
  have hboard := board_perform (a := a) m hwait hpresent
  obtain ⟨hindex, hfront⟩ := targetIndex_perform (a := a) hm.running hpresent
  rw [hstop] at hboard hindex hfront
  exact ⟨hboard, hfront, hm.trans (.of_eq hm.running hboard hindex)⟩

/-- A stop in a callback ends the stages of the run. -/
theorem start_each_of_place {k : Nat} {done : List Stage} {i : Stage} {stop : Stop}
    (hplace : Place n k done i) (hdone : Complete a done s m)
    (hstop : (perform a i).start m = (.error stop, m')) :
    (Step.each (perform a) (schedule n)).start s = (.error stop, m') := by
  obtain ⟨rest, hschedule⟩ := hplace.exists_rest
  rw [hschedule]
  exact Step.start_each_of_stop hdone hstop

/-- A run that stops in a callback returns the text of the stop, which the fault screen shows as one
more frame. -/
theorem runMeasured_of_stop {k : Nat} {done : List Stage} {i : Stage} {p : Panic}
    (hrun : s.board.Running) (hroom : s.board.RoomFor (k + 1)) (hplace : Place n k done i)
    (hdone : Complete a done s m) (hstop : (perform a i).start m = (.error (.panic p), m'))
    (hfits : Console.FaultFits m'.screen.width p.message) :
    ∃ s', (Session.runMeasured a n).start s = (.ok (some p.message), s') ∧
      ShowsFault a p.message k s m' s' := by
  obtain ⟨-, -, hcounted⟩ := counted_of_stop hrun hplace hdone hstop
  have hroom' := hcounted.roomFor hroom
  have hreport := start_report (.error p) hcounted.running hroom'
    fun text htext => Option.some.inj htext ▸ hfits
  rw [runMeasured_eq_runAlong,
    start_runAlong (.error p) (start_each_of_place hplace hdone hstop), hreport]
  exact ⟨_, rfl, showsFault_faulted hcounted hroom' hfits⟩

/-- If the text of the stop cannot be drawn, the run stops, and nothing more is shown. -/
theorem runMeasured_of_not_fits {k : Nat} {done : List Stage} {i : Stage} {p : Panic}
    (hplace : Place n k done i) (hdone : Complete a done s m)
    (hstop : (perform a i).start m = (.error (.panic p), m'))
    (hfits : ¬ Console.FaultFits m'.screen.width p.message) :
    ∃ canvas, (Session.runMeasured a n).start s =
      (.error (.panic (.overflow .multiply)),
        { m' with screen := m'.screen.withCanvas canvas }) := by
  rw [runMeasured_eq_runAlong,
    start_runAlong (.error p) (start_each_of_place hplace hdone hstop)]
  exact exists_start_report_of_not_fits (.error p) rfl hfits

/-- A measured run of `n` frames, while the clock does not run back, the refresh comes, all frames
can be counted and core 1 does not stop. It does the stages of its schedule in order, and completes
or stops in a callback. If it completes, it has waited `n` times and shown `n` frames, returns
nothing and shows nothing more. If a callback stops, which is at one of the places of the schedule
with `k` whole frames before it, it has waited `k` times and shown `k` frames, and what the callback
drew is not shown. The fault screen with the text of the stop replaces it and is shown as frame
`k + 1`, after one more wait, and the text is returned. A text of too many lines stops the run
itself, and then nothing more is shown; and a callback that has no end leaves the run without one. -/
theorem runMeasured_shows_every_stop (a : App σ) (n : Nat) (s : Session (Measured σ))
    (hrun : s.board.Running) (hroom : s.board.RoomFor (n + 1))
    (hclock : s.board.clock.NeverDecreases n) (hstats : s.app.stats = .initial)
    (hfault : Core1GoesOn a n s) :
    Session.runMeasured a n = runAlong a (schedule n) ∧
    ((∃ m, Complete a (schedule n) s m) ∨
      ∃ k done i m stop m', Place n k done i ∧ Complete a done s m ∧
        (perform a i).start m = (.error stop, m')) ∧
    (∀ m, Complete a (schedule n) s m →
      (Session.runMeasured a n).start s = (.ok none, m) ∧ Counted n n s m) ∧
    ∀ k done i m m', Place n k done i → Complete a done s m →
      (∀ p, (perform a i).start m = (.error (.panic p), m') →
        Counted k k s m ∧ m'.board = m.board ∧ m'.screen.front = m.screen.front ∧
          (Console.FaultFits m'.screen.width p.message →
            ∃ s' text, (Session.runMeasured a n).start s = (.ok (some text), s') ∧
              ShowsFault a text k s m' s' ∧ text = p.message ∧
              (p = .thrown .other → text = "unknown panic")) ∧
          (¬ Console.FaultFits m'.screen.width p.message →
            ∃ canvas, (Session.runMeasured a n).start s =
              (.error (.panic (.overflow .multiply)),
                { m' with screen := m'.screen.withCanvas canvas }))) ∧
      ((perform a i).start m = (.error .endless, m') →
        (Session.runMeasured a n).start s = (.error .endless, m')) := by
  -- Nothing has been recorded yet, so there is room for a record of every frame.
  have hrecords : s.app.stats.RoomFor n := by
    have hzero : FrameStats.initial.frames.toNat = 0 := rfl
    rw [hstats, FrameStats.RoomFor, hzero]
    unfold Board.RoomFor at hroom
    omega
  have hsteady : Steady (schedule n) s := by
    refine ⟨hrun, hstats ▸ FrameStats.fits_initial _, ?_, ?_, ?_⟩
    · rwa [count_wait_schedule]
    · rw [count_present_schedule]
      exact hroom.mono (Nat.le_succ n)
    · rwa [count_record_schedule]
  refine ⟨runMeasured_eq_runAlong a n, run_ends hsteady hfault,
    fun m => runMeasured_of_complete hrun hroom hfault, ?_⟩
  refine fun k done i m m' hplace hdone => ⟨fun p hstop => ?_, fun hstop => ?_⟩
  · obtain ⟨hboard, hfront, -⟩ := counted_of_stop hrun hplace hdone hstop
    have hroom' := hroom.mono (Nat.succ_le_succ hplace.le)
    refine ⟨counted_of_place hrun hplace hdone, hboard, hfront, fun hfits => ?_,
      runMeasured_of_not_fits hplace hdone hstop⟩
    obtain ⟨s', hs', hshows⟩ := runMeasured_of_stop hrun hroom' hplace hdone hstop hfits
    refine ⟨s', p.message, hs', hshows, rfl, ?_⟩
    rintro rfl
    rfl
  · rw [runMeasured_eq_runAlong]
    exact start_runAlong_of_endless (start_each_of_place hplace hdone hstop)

/-- An application that does nothing but throw in the drawing of one frame. -/
def throwing (tick : UInt32) (payload : Payload) : App Unit where
  init _ := pure ()
  update _ _ := pure ()
  draw _ t := Step.ofExcept (if t = tick then .error (.thrown payload) else .ok ())

theorem keeps_throwing (P : SecondCore → Prop) (tick : UInt32) (payload : Payload) :
    (throwing tick payload).Keeps P :=
  ⟨fun _ => Step.keeps_pure (), fun _ _ => Step.keeps_pure (), fun _ _ => Step.keeps_ofExcept _⟩

theorem start_draw_throwing (tick : UInt32) (payload : Payload) (s : Session (Measured Unit)) :
    (perform (throwing tick payload) (.draw tick)).start s =
      (.error (.panic (.thrown payload)), s) := by
  simp only [perform, Session.onScene, Step.start_bind, Step.start_get, Step.start_on,
    Measured.inside, App.within, Scene.within, throwing, if_true, Step.start_ofExcept_error]
  rfl

/-- The application of the next theorem gets as far as the second drawing. -/
theorem exists_complete_throwing :
    ∃ m, Complete (throwing 1 .other) (schedule 1 ++ [Stage.check, .record, .update 1])
      ⟨Console.simulated (.start 0 []) 4 3, .new ()⟩ m :=
  ⟨_, Step.completes_of_ok (by decide +kernel)⟩

/-- A run of three frames that throws in the drawing of the second one shows the first one and the
fault screen. -/
theorem runMeasured_throwing :
    ∃ s', (Session.runMeasured (throwing 1 .other) 3).start
        ⟨Console.simulated (.start 0 []) 4 3, .new ()⟩ = (.ok (some "unknown panic"), s') ∧
      s'.board.display.frame = 2 ∧ s'.board.refreshes = 2 ∧ s'.screen.targetIndex = 0 := by
  obtain ⟨-, -, -, hstop⟩ := runMeasured_shows_every_stop (throwing 1 .other) 3
    ⟨Console.simulated (.start 0 []) 4 3, .new ()⟩ (Board.running_simulated _) (by decide)
    (Clock.neverDecreases_start_nil 0 3) rfl (core1GoesOn_of_idle (keeps_throwing _ _ _) ⟨rfl, rfl⟩)
  obtain ⟨m, hdone⟩ := exists_complete_throwing
  obtain ⟨-, -, -, hfits, -⟩ := (hstop 1 _ (.draw 1) m m (.draw (by decide)) hdone).1
    (.thrown .other) (start_draw_throwing 1 .other m)
  obtain ⟨s', text, hs', hshows, -, htext⟩ :=
    hfits (Console.faultFits_of_length_lt (by decide) _)
  rw [htext rfl] at hs'
  refine ⟨s', hs', ?_, hshows.refreshes, Fin.ext hshows.targetIndex⟩
  rw [hshows.display]
  exact UInt64.toNat_inj.1 hshows.presented

end Handheld.Stage
