import Handheld.Proofs.Run.Bar
import Handheld.Proofs.Run.Schedule
import Handheld.Proofs.Run.Times

/-!
# What the stages of a run do

Each stage reaches only a part of the session: the board is moved by waits and presentations, the
frame that is shown by presentations, and the frame times by records.

* `counted_of_complete`: the counters after any completed stages.
* `steady_of_complete`, `goes_on`: while the clock does not run back and the frames can be counted,
  only callbacks and checks stop.
* `start_report`, `exists_start_report_of_not_fits`: how a stop is shown, and when it cannot be.
* `showsFault_faulted`: the fault screen is shown as one more frame.
-/

namespace Handheld.Stage

variable {σ : Type} {a : App σ} {s s' : Session (Measured σ)} {i : Stage}
  {stages rest : List Stage}

/-! ## The stages on a running board -/

theorem start_wait (h : s.board.Running) :
    (perform a .wait).start s = (.ok (), { s with toConsole := s.toConsole.waited }) := by
  rw [perform, Session.onConsole, Step.start_on, Console.start_waitRefresh_of_running h]

theorem start_present (h : s.board.Running) (hroom : s.board.RoomFor 1) :
    (perform a .present).start s = (.ok (), { s with toConsole := s.toConsole.shown }) := by
  rw [perform, Session.onConsole, Step.start_on, Console.start_flip_of_running h hroom]

/-- A presentation that does not stop has counted its frame. -/
theorem roomFor_of_start_present (h : s.board.Running)
    (hpresent : (perform a .present).start s = (.ok (), s')) : s.board.RoomFor 1 := by
  have hflip : Console.flip.start s.toConsole = (.ok (), s'.toConsole) := by
    rw [perform, Session.onConsole, Step.start_on, Prod.mk.injEq] at hpresent
    obtain ⟨hok, rfl⟩ := hpresent
    exact Prod.ext hok rfl
  exact Console.roomFor_of_start_flip h hflip

/-- The fault screen is painted if its text can be drawn. -/
theorem start_fault {message : String}
    (h : Console.FaultFits s.screen.width message) :
    (perform a (.fault message)).start s =
      (.ok (), { s with toConsole := s.toConsole.painted message }) := by
  rw [perform, Session.onConsole, Step.start_on, Console.start_draw_paintFault h]

/-- A check stops the run if core 1 has stopped, and changes nothing. -/
theorem start_check (a : App σ) (s : Session (Measured σ)) :
    (perform a .check).start s =
      match s.core1.fault with
      | some message => (.error (.panic (.core1 message)), s)
      | none => (.ok (), s) := by
  obtain ⟨⟨⟨_, ⟨_, _, _, _, fault, _, _⟩, _⟩, _⟩, _⟩ := s
  cases fault <;> rfl

/-- A record is one of the frame times, at the present time. -/
theorem start_record (h : s.board.Running) :
    (perform a .record).start s =
      (((FrameStats.record ⟨s.board.clock.now⟩).start s.app.stats).1,
        { s with app := { s.app with
          stats := ((FrameStats.record ⟨s.board.clock.now⟩).start s.app.stats).2 } }) := by
  obtain ⟨p, hp⟩ := Option.isSome_iff_exists.1 h.platform
  have hnow : s.board.now = .ok ⟨s.board.clock.now⟩ := by
    rw [Board.now, Board.require, hp]
    rfl
  simp only [perform, Session.backstage, Measured.recordFrame, Step.start_bind, Step.start_get,
    Step.start_on, Step.start_ofExcept_ok, hnow]

/-- The bar is always drawn. -/
theorem exists_start_bar (a : App σ) (s : Session (Measured σ)) :
    ∃ s', (perform a .bar).start s = (.ok (), s') := by
  rw [perform, Session.onScene, Step.start_bind_of_ok (Step.start_get s), Step.start_on,
    Measured.start_drawStats]
  exact ⟨_, rfl⟩

/-! ## What the stages leave alone -/

/-- Only a wait or a presentation moves the board. -/
theorem board_perform (s : Session (Measured σ)) (hwait : i ≠ .wait) (hpresent : i ≠ .present) :
    ((perform a i).start s).2.board = s.board := by
  cases i <;> first | rfl | contradiction

/-- Only a wait moves the clock. -/
theorem clock_perform (hwait : i ≠ .wait) (hi : (perform a i).start s = (.ok (), s'))
    (hrun : s.board.Running) : s'.board.clock = s.board.clock := by
  by_cases hpresent : i = .present
  · subst hpresent
    rw [start_present hrun (roomFor_of_start_present hrun hi)] at hi
    obtain rfl := (Prod.mk.inj hi).2
    rfl
  · have hboard := board_perform (a := a) s hwait hpresent
    rw [hi] at hboard
    rw [hboard]

/-- Only a record changes the frame times. -/
theorem stats_perform (s : Session (Measured σ)) (hrecord : i ≠ .record) :
    ((perform a i).start s).2.app.stats = s.app.stats := by
  cases i with
  | record => contradiction
  | check =>
    rw [start_check]
    split <;> rfl
  | _ => rfl

/-- Only a presentation exchanges the frames. -/
theorem targetIndex_perform (hrun : s.board.Running) (hpresent : i ≠ .present) :
    ((perform a i).start s).2.screen.targetIndex = s.screen.targetIndex ∧
      ((perform a i).start s).2.screen.front = s.screen.front := by
  cases i with
  | present => contradiction
  | check =>
    rw [start_check]
    split <;> exact ⟨rfl, rfl⟩
  | wait =>
    rw [start_wait hrun]
    exact ⟨rfl, rfl⟩
  | record =>
    rw [start_record hrun]
    exact ⟨rfl, rfl⟩
  | bar | fault message =>
    exact ⟨Screen.targetIndex_withCanvas _ _, Screen.front_withCanvas _ _⟩
  | _ => exact ⟨rfl, rfl⟩

/-! ## Counters -/

/-- From `s` to `s'` so many refreshes were waited for and so many frames handed to the display. -/
structure Counted (waits frames : Nat) (s s' : Session (Measured σ)) : Prop where
  running : s'.board.Running
  refreshes : s'.board.refreshes = s.board.refreshes + UInt64.ofNat waits
  presented : s'.board.presented.toNat = s.board.presented.toNat + frames
  targetIndex : s'.screen.targetIndex.val = (s.screen.targetIndex.val + frames) % 2

theorem Counted.trans {w v f g : Nat} {m : Session (Measured σ)} (h : Counted w f s m)
    (h' : Counted v g m s') : Counted (w + v) (f + g) s s' where
  running := h'.running
  refreshes := by rw [h'.refreshes, h.refreshes, UInt64.add_assoc, UInt64.ofNat_add]
  presented := by rw [h'.presented, h.presented, Nat.add_assoc]
  targetIndex := by rw [h'.targetIndex, h.targetIndex, Nat.mod_add_mod, Nat.add_assoc]

/-- A stage that leaves the board and the roles of the frames alone counts as nothing. -/
theorem Counted.of_eq (hrun : s.board.Running) (hboard : s'.board = s.board)
    (hindex : s'.screen.targetIndex = s.screen.targetIndex) : Counted 0 0 s s' where
  running := hboard ▸ hrun
  refreshes := by rw [hboard, show UInt64.ofNat 0 = 0 from rfl, UInt64.add_zero]
  presented := by rw [hboard, Nat.add_zero]
  targetIndex := by rw [hindex, Nat.add_zero, Nat.mod_eq_of_lt s.screen.targetIndex.isLt]

/-- What can still be counted. -/
theorem Counted.roomFor {waits frames n : Nat} (h : Counted waits frames s s')
    (hroom : s.board.RoomFor (frames + n)) : s'.board.RoomFor n := by
  rwa [Board.RoomFor, h.presented, Nat.add_assoc]

/-- A stage that is no presentation counts if it is a wait, whether it stops or not. -/
theorem counted_perform (hrun : s.board.Running) (hpresent : i ≠ .present) :
    Counted ([i].count .wait) 0 s ((perform a i).start s).2 := by
  by_cases hwait : i = .wait
  · subst hwait
    rw [start_wait hrun]
    exact ⟨Board.running_waited hrun, Board.refreshes_waited hrun, rfl,
      (Nat.mod_eq_of_lt s.screen.targetIndex.isLt).symm⟩
  · rw [List.count_singleton, if_neg (by simpa using hwait)]
    exact .of_eq hrun (board_perform s hwait hpresent) (targetIndex_perform hrun hpresent).1

/-- A stage that does not stop counts if it is a wait or a presentation. -/
theorem counted_of_start (hrun : s.board.Running) (hi : (perform a i).start s = (.ok (), s')) :
    Counted ([i].count .wait) ([i].count .present) s s' := by
  by_cases hpresent : i = .present
  · subst hpresent
    have hroom := roomFor_of_start_present hrun hi
    rw [start_present hrun hroom] at hi
    obtain rfl := (Prod.mk.inj hi).2
    exact ⟨Console.running_shown hrun, (UInt64.add_zero _).symm,
      Console.toNat_presented_shown hroom, Fin.val_add s.screen.targetIndex 1⟩
  · have hcounted := counted_perform (a := a) hrun hpresent
    rw [hi] at hcounted
    rwa [List.count_singleton (b := i) (a := Stage.present), if_neg (by simpa using hpresent)]

/-- The counters are moved by the waits and the presentations among the completed stages. -/
theorem counted_of_complete (hrun : s.board.Running) (h : Complete a stages s s') :
    Counted (stages.count .wait) (stages.count .present) s s' := by
  induction stages generalizing s with
  | nil =>
    rw [Step.completes_nil_iff.1 h]
    exact .of_eq hrun rfl rfl
  | cons i rest ih =>
    obtain ⟨m, hi, hrest⟩ := Step.completes_cons_iff.1 h
    have hfirst := counted_of_start hrun hi
    rw [← List.singleton_append, List.count_append, List.count_append]
    exact hfirst.trans (ih hfirst.running hrest)

/-- The records among the completed stages are counted. -/
theorem counts_of_complete {records : Nat} (hrun : s.board.Running)
    (hs : s.app.stats.Counts records) (h : Complete a stages s s') :
    s'.app.stats.Counts (records + stages.count .record) := by
  induction stages generalizing s records with
  | nil => rwa [Step.completes_nil_iff.1 h]
  | cons i rest ih =>
    obtain ⟨m, hi, hrest⟩ := Step.completes_cons_iff.1 h
    rw [← List.singleton_append, List.count_append, ← Nat.add_assoc]
    refine ih (counted_of_start hrun hi).running ?_ hrest
    by_cases hrecord : i = .record
    · subst hrecord
      rw [start_record hrun, Prod.mk.injEq] at hi
      obtain ⟨hok, rfl⟩ := hi
      exact FrameStats.counts_record hs (Prod.ext hok rfl)
    · have hstats := stats_perform (a := a) s hrecord
      rw [hi] at hstats
      rw [List.count_singleton, if_neg (by simpa using hrecord), hstats]
      exact hs

/-! ## Stages that do not stop -/

/-- In what is left of a run the clock does not run back and all frames can be counted: the board is
running and the frame times fit. -/
structure Steady (left : List Stage) (s : Session (Measured σ)) : Prop where
  running : s.board.Running
  fits : s.app.stats.Fits s.board.clock.now
  clock : s.board.clock.NeverDecreases (left.count .wait)
  frames : s.board.RoomFor (left.count .present)
  records : s.app.stats.RoomFor (left.count .record)

/-- While the frame times fit, a record does not stop, and they fit again. -/
theorem exists_start_record_of_steady (h : Steady (.record :: rest) s) :
    ∃ s', (perform a .record).start s = (.ok (), s') ∧
      s'.app.stats.Fits s.board.clock.now ∧ s'.app.stats.RoomFor (rest.count .record) := by
  have hfits : s.app.stats.Fits (Instant.mk s.board.clock.now).us := h.fits
  have hroom := h.records
  rw [List.count_cons_self] at hroom
  obtain ⟨stats, hrecord, hstats⟩ := FrameStats.start_record_of_fits hfits hroom
  rw [start_record h.running, hrecord]
  exact ⟨_, rfl, hstats⟩

/-- Each stage leaves what the others need. -/
theorem steady_perform (h : Steady (i :: rest) s) (hi : (perform a i).start s = (.ok (), s')) :
    Steady rest s' := by
  have hcounted := counted_of_start h.running hi
  have hframes : s'.board.RoomFor (rest.count .present) := by
    refine hcounted.roomFor ?_
    rw [← List.count_append, List.singleton_append]
    exact h.frames
  by_cases hwait : i = .wait
  · subst hwait
    have hclock := h.clock
    rw [List.count_cons_self] at hclock
    rw [start_wait h.running] at hi
    obtain rfl := (Prod.mk.inj hi).2
    exact ⟨hcounted.running, h.fits.mono hclock.1, hclock.2, hframes, h.records⟩
  -- Nothing else moves the clock, and only a record changes what has to fit below it.
  have hclock : s'.board.clock = s.board.clock := clock_perform hwait hi h.running
  have hstats : s'.app.stats.Fits s.board.clock.now ∧
      s'.app.stats.RoomFor (rest.count .record) := by
    by_cases hrecord : i = .record
    · subst hrecord
      obtain ⟨m, hm, hstats⟩ := exists_start_record_of_steady (a := a) h
      rwa [(Prod.mk.inj (hi.symm.trans hm)).2]
    · have hsame := stats_perform (a := a) s hrecord
      rw [hi] at hsame
      rw [hsame]
      exact ⟨h.fits, h.records.mono List.count_le_count_cons⟩
  refine ⟨hcounted.running, hclock ▸ hstats.1, ?_, hframes, hstats.2⟩
  rw [hclock]
  exact h.clock.mono List.count_le_count_cons

/-- Completed stages leave what the others need. -/
theorem steady_of_complete (h : Steady (stages ++ rest) s) (hstages : Complete a stages s s') :
    Steady rest s' := by
  induction stages generalizing s with
  | nil =>
    rw [Step.completes_nil_iff.1 hstages]
    exact h
  | cons i later ih =>
    obtain ⟨m, hi, hlater⟩ := Step.completes_cons_iff.1 hstages
    exact ih (steady_perform h hi) hlater

/-- While the frame times fit and the frames can be counted, only callbacks, checks and the painting
of the fault screen may stop. -/
theorem goes_on (h : Steady (i :: rest) s) (hcallback : i.isCallback = false)
    (hcheck : i ≠ .check) (hfault : ∀ message, i ≠ .fault message) :
    ∃ s', (perform a i).start s = (.ok (), s') := by
  cases i with
  | init | update | draw => cases hcallback
  | check => contradiction
  | fault message => exact absurd rfl (hfault message)
  | record =>
    obtain ⟨m, hm, -⟩ := exists_start_record_of_steady h
    exact ⟨m, hm⟩
  | bar => exact exists_start_bar a s
  | turn => exact ⟨_, rfl⟩
  | wait => exact ⟨_, start_wait h.running⟩
  | present =>
    have hroom := h.frames
    rw [List.count_cons_self] at hroom
    exact ⟨_, start_present h.running (hroom.mono (Nat.le_add_left 1 _))⟩

/-! ## The report -/

/-- What the end of a run says: the text of the stop, or of a fault of core 1 that no check has
found. -/
def endText (s : Session (Measured σ)) : Except Panic Unit → Option String
  | .error p => some p.message
  | .ok () => s.core1.fault.map Panic.core1Text

/-- The report shows the text if there is one. -/
theorem start_report_eq (outcome : Except Panic Unit) (s : Session (Measured σ)) :
    (Session.report outcome).start s = Step.start (match endText s outcome with
      | some text => Session.onConsole (Console.showFault text) >>= fun _ => pure (some text)
      | none => pure none) s := by
  cases outcome <;> rfl

/-- A text that can be drawn is shown on the fault screen and returned; without one nothing
happens. -/
theorem start_report (outcome : Except Panic Unit) (hrun : s.board.Running)
    (hroom : s.board.RoomFor 1)
    (hfits : ∀ text, endText s outcome = some text → Console.FaultFits s.screen.width text) :
    (Session.report outcome).start s =
      (.ok (endText s outcome),
        match endText s outcome with
        | some text => { s with toConsole := s.toConsole.faulted text }
        | none => s) := by
  rw [start_report_eq]
  cases htext : endText s outcome with
  | none => rfl
  | some text =>
    have hshow := Console.start_showFault_of_running hrun hroom (hfits text htext)
    simp only [Step.start_bind, Session.onConsole, Step.start_on, hshow, Step.start_pure]

/-- A text that cannot be drawn stops the report. Nothing is shown: only the frame to draw on and the
pen have changed. -/
theorem exists_start_report_of_not_fits (outcome : Except Panic Unit) {text : String}
    (htext : endText s outcome = some text) (hfits : ¬ Console.FaultFits s.screen.width text) :
    ∃ canvas, (Session.report outcome).start s =
      (.error (.panic (.overflow .multiply)),
        { s with screen := s.screen.withCanvas canvas }) := by
  obtain ⟨canvas, hshow⟩ := Console.exists_start_showFault_of_not_fits hfits
  refine ⟨canvas, ?_⟩
  rw [start_report_eq, htext]
  simp only [Step.start_bind, Session.onConsole, Step.start_on, hshow]

/-- A run ends with the report in the state that its stages leave. -/
theorem start_runAlong (outcome : Except Panic Unit)
    (h : (Step.each (perform a) stages).start s = (outcome.mapError .panic, s')) :
    (runAlong a stages).start s = (Session.report outcome).start s' := by
  have hcaught : (Step.each (perform a) stages).caught.start s = (.ok outcome, s') := by
    rw [Step.start_caught, h]
    cases outcome <;> rfl
  rw [runAlong, Step.start_bind_of_ok hcaught]

/-- A run that does not come to an end has no report. -/
theorem start_runAlong_of_endless
    (h : (Step.each (perform a) stages).start s = (.error .endless, s')) :
    (runAlong a stages).start s = (.error .endless, s') := by
  have hcaught : (Step.each (perform a) stages).caught.start s = (.error .endless, s') := by
    rw [Step.start_caught, h]
    rfl
  rw [runAlong, Step.start_bind_of_error hcaught]

/-- After `k` frames from `s` on the run ends in `m`, and the fault screen with the text replaces
what was drawn there and is handed to the display in `s'`, after one more wait. -/
structure ShowsFault (a : App σ) (text : String) (k : Nat) (s m s' : Session (Measured σ)) :
    Prop where
  stages : Complete a [.fault text, .wait, .present] m s'
  app : s'.app = m.app
  front : s'.screen.front = Console.faultScreen m.screen.width m.screen.height text
  display : s'.board.display = .capture s'.screen.front s'.board.presented
  presented : s'.board.presented.toNat = s.board.presented.toNat + k + 1
  refreshes : s'.board.refreshes = s.board.refreshes + UInt64.ofNat (k + 1)
  targetIndex : s'.screen.targetIndex.val = (s.screen.targetIndex.val + k + 1) % 2

/-- The fault screen is shown as one more frame. -/
theorem showsFault_faulted {k : Nat} {m : Session (Measured σ)} {text : String}
    (h : Counted k k s m) (hroom : m.board.RoomFor 1)
    (hfits : Console.FaultFits m.screen.width text) :
    ShowsFault a text k s m { m with toConsole := m.toConsole.faulted text } := by
  -- What `faulted` does at one go is done by the three stages.
  have hstages : Complete a [.fault text, .wait, .present] m
      { m with toConsole := m.toConsole.faulted text } :=
    Step.completes_cons_iff.2 ⟨_, start_fault hfits,
      Step.completes_cons_iff.2 ⟨_, start_wait h.running,
        Step.completes_singleton_iff.2 (start_present (Board.running_waited h.running) hroom)⟩⟩
  have hcounted := h.trans (counted_of_complete h.running hstages)
  exact ⟨hstages, rfl, Console.front_faulted text m.toConsole, rfl, hcounted.presented,
    hcounted.refreshes, hcounted.targetIndex⟩

end Handheld.Stage
