import Handheld.Program
import Handheld.Proofs.Run.Shown

/-!
# What the program leaves

Options with a number of frames, carried out on a device on which nothing has been set up: what is
refused, what reaches the display, what is saved and what is reported. The run goes along a timeline,
in which core 1 takes its turns anywhere; the program's own schedule is one of them.

* `run_eq_runAlong`: the program is a run along its schedule.
* `check_of_timed`, `check_of_badRate`, `check_of_goodRate`: which options are refused.
* `refreshComes_of_immediate`, `refreshComes_iff_of_period`: when the refresh comes.
* `start_runAlong_of_played`: after the demo the screenshot is all that is left.
* `exists_ran_of_played`: and what becomes of it.
* `exists_ran`: what the options come to if they are not refused.
* `run_presents_saves_and_reports`: all of it, for every choice of options.
-/

namespace Handheld.Host

open CommandLine

variable {o : Options} {n : Nat} {timeline : List Stage} {s s' : Host}

/-! ## A run along a timeline -/

/-- Carry out the options, with the demo played in the given way. -/
def runWith (o : Options) (play : Screen → Step Host (Option String × FrameStats)) :
    Step Host (Option RunError) := do
  match ← Step.ofExcept (check o) with
  | some e => return some e
  | none =>
    setUp o
    let screen ← Step.ofExcept (Screen.allocate o.width o.height)
    write ("running " ++ o.demo.title)
    let (fault, stats) ← play screen
    write stats.text
    match ← saveScreenshot o.screenshot with
    | some e => return some e
    | none => return fault.map .stopped

/-- Play the demo along a timeline, in which core 1 takes its turns anywhere. -/
def playAlong (o : Options) (timeline : List Stage) (screen : Screen) :
    Step Host (Option String × FrameStats) :=
  .ofFunction fun s =>
    let session : Session (Measured Demo.State) :=
      { s.toMachine with screen, app := .new o.demo.build }
    let (outcome, session) := (Stage.runAlong Demo.app timeline).start session
    (outcome.map fun fault => (fault, session.app.stats), { s with toMachine := session.toMachine })

/-- Carry out the options along a timeline of the demo's run. -/
def runAlong (o : Options) (timeline : List Stage) : Step Host (Option RunError) :=
  runWith o (playAlong o timeline)

/-- A run of the program goes along the schedule of its frames. -/
theorem run_eq_runAlong (hframes : o.frames = some n) (patience : Nat) :
    run o patience = runAlong o (Stage.schedule n) := by
  have hplay : (fun screen => runDemo o screen (o.frames.getD patience)) =
      playAlong o (Stage.schedule n) := by
    funext screen
    unfold runDemo playAlong
    rw [hframes, Option.getD_some, Stage.runMeasured_eq_runAlong]
  show runWith o _ = _
  rw [hplay]
  rfl

theorem start_playAlong {screen : Screen} {fault : Option String}
    {m : Session (Measured Demo.State)}
    (h : (Stage.runAlong Demo.app timeline).start ⟨⟨s.toMachine, screen⟩, .new o.demo.build⟩ =
      (.ok fault, m)) :
    (playAlong o timeline screen).start s =
      (.ok (fault, m.app.stats), ⟨m.toMachine, s.disk⟩) := by
  rw [playAlong, Step.start_ofFunction]
  simp only [h]
  rfl

/-! ## The options -/

/-- The waits for the refresh have a length, or end at once. -/
def GoodRate (o : Options) : Prop := o.immediate = true ∨ o.refreshRate.isPositive = true

theorem check_of_timed (hwidth : 0 < o.width) (hheight : 0 < o.height)
    (himmediate : o.immediate = false) :
    check o = (Refresh.timed o.refreshRate).period.map fun period =>
      if period.isNone then some (.badRate o.refreshRate) else none := by
  have hsize : ¬ (o.width ≤ 0 ∨ o.height ≤ 0) := by omega
  rw [check, if_neg hsize, himmediate, Options.simulator, himmediate]
  rfl

theorem check_of_badRate (hwidth : 0 < o.width) (hheight : 0 < o.height) (hrate : ¬ GoodRate o) :
    check o = .ok (some (.badRate o.refreshRate)) := by
  obtain ⟨himmediate, hpositive⟩ := not_or.1 hrate
  have hperiod : (Refresh.timed o.refreshRate).period = .ok none := if_neg hpositive
  rw [check_of_timed hwidth hheight (Bool.eq_false_iff.2 himmediate), hperiod]
  rfl

theorem check_of_goodRate (hwidth : 0 < o.width) (hheight : 0 < o.height) (hrate : GoodRate o)
    {period : Option Duration} (hperiod : o.simulator.refresh.period = .ok period) :
    check o = .ok none := by
  have hsize : ¬ (o.width ≤ 0 ∨ o.height ≤ 0) := by omega
  rw [check, if_neg hsize]
  by_cases himmediate : o.immediate = true
  · rw [if_pos himmediate]
  · have hpositive := hrate.resolve_left himmediate
    -- A positive rate has a period.
    have hsome : period.isNone = false := by
      unfold Options.simulator Refresh.period at hperiod
      rw [if_neg himmediate] at hperiod
      simp only [if_pos hpositive] at hperiod
      cases hduration : Refresh.durationOfSeconds o.refreshRate.reciprocal with
      | error p =>
        rw [hduration] at hperiod
        cases hperiod
      | ok duration =>
        rw [hduration] at hperiod
        obtain rfl := Except.ok.inj hperiod
        rfl
    rw [if_neg himmediate, hperiod]
    simp [Except.map, hsome]

/-- The board with the simulator installed and the buttons held down. -/
def installed (o : Options) (b : Board) : Board :=
  { b with
    platform := some .simulator
    simulator := some o.simulator
    buttons := o.hold.foldl .press b.buttons }

/-- The board of a fresh process: nothing has been set up, and so many waits will end before the
host's ticks come faster than they are taken out, or cease to come. -/
def fresh (clock : Clock) (ticks : Option Nat) : Board := { Board.bare clock with ticks }

/-- Waits that end at once need no ticker. -/
theorem refreshComes_of_immediate (h : o.immediate = true) (b : Board) :
    (installed o b).RefreshComes := by
  intro period hticker
  have hrefresh : o.simulator.refresh = .immediate := by
    rw [Options.simulator]
    exact if_pos h
  have hnone : (installed o b).ticker = none := by
    show o.simulator.refresh.ticker = none
    rw [hrefresh]
    rfl
  rw [hnone] at hticker
  cases hticker

/-- With a ticker the refresh comes if time passes between two ticks, and the host keeps up with them
and never ceases to send them. -/
theorem refreshComes_iff_of_period {period : Duration}
    (hperiod : o.simulator.refresh.period = .ok (some period)) (b : Board) :
    (installed o b).RefreshComes ↔ period.nanos ≠ 0 ∧ b.ticks = none := by
  have hticker : (installed o b).ticker = some period := by
    show o.simulator.refresh.period.toOption.join = _
    rw [hperiod]
    rfl
  exact Board.refreshComes_iff_of_ticker hticker

example : (installed .initial (fresh (.start 0 []) none)).RefreshComes := by decide +kernel

theorem running_installed {clock : Clock} {ticks : Option Nat}
    (hcomes : (installed o (fresh clock ticks)).RefreshComes) :
    (installed o (fresh clock ticks)).Running :=
  ⟨⟨rfl, rfl⟩, hcomes, rfl⟩

theorem start_setUp {clock : Clock} {ticks : Option Nat} (hboard : s.board = fresh clock ticks)
    {period : Option Duration} (hperiod : o.simulator.refresh.period = .ok period) :
    (setUp o).start s = (.ok (), { s with board := installed o s.board }) := by
  have hinstall : (Board.installSimulator o.simulator).start s.board =
      (.ok o.simulator, { s.board with
        platform := some .simulator
        simulator := some o.simulator }) := by
    rw [hboard, Board.installSimulator, Step.start_bind_of_ok (Step.start_get _)]
    simp only [fresh, Board.bare]
    rw [hperiod, Step.start_bind_of_ok (Step.start_ofExcept_ok _ _)]
    rfl
  have hon : ((Board.installSimulator o.simulator).on (·.board) fun (s : Host) board =>
      { s with board }).start s = _ := Step.start_on ..
  rw [hinstall] at hon
  rw [setUp, Step.start_bind_of_ok hon]
  rfl

/-! ## The screenshot -/

/-- The last frame can be saved once there is one: it has the size of the screen. -/
theorem exists_save {frames : List Frame} {f : Frame} {path : String}
    (hlast : frames.getLast? = some f) (hroom : frames.length < UInt64.size)
    (hsize : f.HasSize o.width o.height)
    (hwidth : 0 < o.width ∧ Word32.Fits o.width) (hheight : 0 < o.height ∧ Word32.Fits o.height)
    {disk : Disk} (hwritable : disk.writable path = true) :
    ∃ disk', disk.save path (Snapshot.blank.following frames) = .ok disk' ∧
      disk.write path f = .ok disk' := by
  have hw := hwidth.2.2
  have hh := hheight.2.2
  have hgreatest : Word32.greatest < UInt32.size := by decide
  have hcount : Snapshot.blank.frame + UInt64.ofNat frames.length ≠ 0 := by
    intro hzero
    have hlength := congrArg UInt64.toNat hzero
    rw [show Snapshot.blank.frame = 0 from rfl, UInt64.zero_add,
      UInt64.toNat_ofNat_of_lt' hroom] at hlength
    obtain rfl : frames = [] := List.eq_nil_of_length_eq_zero hlength
    cases hlast
  have himage : (Snapshot.blank.following frames).image? = .ok f := by
    rw [Snapshot.following_of_getLast? hlast]
    exact Snapshot.image?_capture hcount (by rw [hsize.1]; omega) (by rw [hsize.2]; omega)
  have hwrite : disk.write path f = .ok { disk with images := (path, f) :: disk.images } := by
    have hpixels : ¬ (f.width = 0 ∨ f.height = 0 ∨ (!disk.writable path) = true) := by
      rw [hsize.1, hsize.2, hwritable]
      simp
      omega
    exact if_neg hpixels
  refine ⟨_, ?_, hwrite⟩
  rw [Disk.save, himage]
  exact hwrite

/-- Writing an image always adds a file. -/
theorem write_ne_ok_self (disk : Disk) (path : String) (f : Frame) :
    disk.write path f ≠ .ok disk := by
  unfold Disk.write
  split
  · exact nofun
  · intro h
    have himages := congrArg Disk.images (Except.ok.inj h)
    exact List.cons_ne_self _ _ himages

theorem start_saveScreenshot_of_save {path : String} {disk : Disk}
    (hsave : s.disk.save path s.board.display = .ok disk) :
    (saveScreenshot (some path)).start s =
      (.ok none, { s with disk, log := s.log.push ⟨.info, logTarget, "wrote " ++ path⟩ }) := by
  unfold saveScreenshot
  rw [Step.start_bind_of_ok (Step.start_get s)]
  simp only [hsave]
  rfl

theorem start_saveScreenshot_of_blank {path : String} (hdisplay : s.board.display = .blank) :
    (saveScreenshot (some path)).start s =
      (.ok (some (.screenshot .nothingPresented)), s) := by
  have hsave : s.disk.save path s.board.display = .error .nothingPresented := by
    rw [hdisplay]
    rfl
  unfold saveScreenshot
  rw [Step.start_bind_of_ok (Step.start_get s)]
  simp only [hsave]
  rfl

/-! ## The whole program -/

/-- The state in which the demo starts. -/
def started (o : Options) (s : Host) : Session (Measured Demo.State) where
  board := installed o s.board
  core1 := s.core1
  log := s.log.push ⟨.info, logTarget, "running " ++ o.demo.title⟩
  screen := .new o.width o.height
  app := .new o.demo.build

/-- The device after the demo, with its frame times in the log. -/
def played (m : Session (Measured Demo.State)) (disk : Disk) : Host where
  board := m.board
  core1 := m.core1
  log := m.log.push ⟨.info, logTarget, m.app.stats.text⟩
  disk := disk

/-- After the demo the screenshot is all that is left to do. -/
theorem start_runAlong_of_played {clock : Clock} {ticks : Option Nat}
    (hboard : s.board = fresh clock ticks) {period : Option Duration}
    (hperiod : o.simulator.refresh.period = .ok period)
    (hcheck : check o = .ok none) (hfits : Frame.Fits o.width o.height) {fault : Option String}
    {m : Session (Measured Demo.State)}
    (hplay : (Stage.runAlong Demo.app timeline).start (started o s) = (.ok fault, m)) :
    (runAlong o timeline).start s =
      (saveScreenshot o.screenshot >>= fun failure =>
        pure (failure.or (fault.map .stopped))).start (played m s.disk) := by
  have hscreen : Screen.allocate o.width o.height = .ok (.new o.width o.height) := if_pos hfits
  have hplayed : (playAlong o timeline (.new o.width o.height)).start
      { s with
        board := installed o s.board
        log := s.log.push ⟨.info, logTarget, "running " ++ o.demo.title⟩ } =
      (.ok (fault, m.app.stats), ⟨m.toMachine, s.disk⟩) := start_playAlong hplay
  unfold runAlong runWith
  rw [hcheck, Step.start_bind_of_ok (Step.start_ofExcept_ok _ s)]
  simp only
  rw [Step.start_bind_of_ok (start_setUp hboard hperiod), hscreen,
    Step.start_bind_of_ok (Step.start_ofExcept_ok _ _), write,
    Step.start_bind_of_ok (Step.start_modify _ _), Step.start_bind_of_ok hplayed]
  simp only
  rw [write, Step.start_bind_of_ok (Step.start_modify _ _)]
  rw [Step.start_bind, Step.start_bind]
  unfold played
  generalize (saveScreenshot o.screenshot).start _ = saved
  rcases saved with ⟨_ | _ | _, s'⟩ <;> rfl

/-- The frames that the display gets: those of the demo, and the fault screen. -/
def shownFrames (o : Options) (timeline : List Stage) (s : Host) (fault : Option String) :
    List Frame :=
  Stage.presented Demo.app timeline (started o s) ++ Stage.faultFrames o.width o.height fault

/-- What the caller is told: the text of the fault, or that a run without a frame has nothing to
save. -/
def complaint (o : Options) (n : Nat) : Option String → Option String
  | some text => some ("application panicked: " ++ text)
  | none => if o.screenshot.isSome ∧ n = 0 then some "nothing has been presented yet" else none

/-- What the options come to once the demo is played, from `s` to `s'`: the demo's fault if it has
one, what the display has got, what was saved, and what is reported. -/
structure Ran (o : Options) (n : Nat) (timeline : List Stage) (s : Host) (fault : Option String)
    (result : Option RunError) (s' : Host) : Prop where
  played : ∃ m, (Stage.runAlong Demo.app timeline).start (started o s) = (.ok fault, m) ∧
    Stage.Shown Demo.app n timeline o.width o.height fault (started o s) m
  display : s'.board.display = Snapshot.blank.following (shownFrames o timeline s fault)
  saved : ∀ path f, o.screenshot = some path → (shownFrames o timeline s fault).getLast? = some f →
    s.disk.write path f = .ok s'.disk ∧ s'.disk.image? path = some f
  unsaved : o.screenshot = none ∨ shownFrames o timeline s fault = [] → s'.disk = s.disk
  ok : result = none ↔
    fault = none ∧ ∀ path, o.screenshot = some path → ∃ f, s.disk.write path f = .ok s'.disk
  message : result.map RunError.message = complaint o n fault

section Ran

variable {fault : Option String} {m : Session (Measured Demo.State)} {path : String}

theorem ran_of_unsaved
    (hplay : (Stage.runAlong Demo.app timeline).start (started o s) = (.ok fault, m))
    (hshown : Stage.Shown Demo.app n timeline o.width o.height fault (started o s) m)
    (hdisplay : s'.board.display = Snapshot.blank.following (shownFrames o timeline s fault))
    (hscreenshot : o.screenshot = none) (hdisk : s'.disk = s.disk) :
    Ran o n timeline s fault (fault.map .stopped) s' where
  played := ⟨m, hplay, hshown⟩
  display := hdisplay
  saved path f hpath := by
    rw [hscreenshot] at hpath
    cases hpath
  unsaved _ := hdisk
  ok := by simp [hscreenshot]
  message := by
    unfold complaint
    rw [hscreenshot]
    cases fault <;> rfl

/-- Without a fault there is a frame to save if the run has one at all. -/
theorem ran_of_saved {f : Frame}
    (hplay : (Stage.runAlong Demo.app timeline).start (started o s) = (.ok fault, m))
    (hshown : Stage.Shown Demo.app n timeline o.width o.height fault (started o s) m)
    (hdisplay : s'.board.display = Snapshot.blank.following (shownFrames o timeline s fault))
    (hscreenshot : o.screenshot = some path)
    (hlast : (shownFrames o timeline s fault).getLast? = some f)
    (hwrite : s.disk.write path f = .ok s'.disk) :
    Ran o n timeline s fault (fault.map .stopped) s' where
  played := ⟨m, hplay, hshown⟩
  display := hdisplay
  saved path' f' hpath hlast' := by
    obtain rfl := Option.some.inj (hscreenshot.symm.trans hpath)
    obtain rfl := Option.some.inj (hlast.symm.trans hlast')
    exact ⟨hwrite, Disk.image?_of_write hwrite⟩
  unsaved hnone := by
    rcases hnone with hnone | hnil
    · rw [hscreenshot] at hnone
      cases hnone
    · rw [hnil] at hlast
      cases hlast
  ok := by
    have hwritten : ∀ path', o.screenshot = some path' →
        ∃ f, s.disk.write path' f = .ok s'.disk := by
      intro path' hpath
      obtain rfl := Option.some.inj (hscreenshot.symm.trans hpath)
      exact ⟨f, hwrite⟩
    rw [Option.map_eq_none_iff]
    exact (and_iff_left hwritten).symm
  message := by
    cases fault with
    | some text => rfl
    | none =>
      -- A run without a frame has shown nothing that could be the last one.
      have hpos : ¬ (o.screenshot.isSome ∧ n = 0) := by
        rintro ⟨-, hzero⟩
        have hnil : Stage.presented Demo.app timeline (started o s) = [] :=
          List.eq_nil_of_length_eq_zero ((hshown.all rfl).trans hzero)
        rw [shownFrames, hnil] at hlast
        cases hlast
      exact (if_neg hpos).symm

/-- If nothing was shown, there was no frame to run, and no fault either. -/
theorem ran_of_blank
    (hplay : (Stage.runAlong Demo.app timeline).start (started o s) = (.ok fault, m))
    (hshown : Stage.Shown Demo.app n timeline o.width o.height fault (started o s) m)
    (hdisplay : s'.board.display = Snapshot.blank.following (shownFrames o timeline s fault))
    (hscreenshot : o.screenshot = some path) (hnil : shownFrames o timeline s fault = [])
    (hdisk : s'.disk = s.disk) :
    Ran o n timeline s fault (some (.screenshot .nothingPresented)) s' where
  played := ⟨m, hplay, hshown⟩
  display := hdisplay
  saved path' f _ hlast := by
    rw [hnil] at hlast
    cases hlast
  unsaved _ := hdisk
  ok := by
    refine iff_of_false nofun fun ⟨_, hwritten⟩ => ?_
    obtain ⟨f, hwrite⟩ := hwritten path hscreenshot
    rw [hdisk] at hwrite
    exact write_ne_ok_self s.disk path f hwrite
  message := by
    obtain ⟨hpresented, hfault⟩ := List.append_eq_nil_iff.1 hnil
    have hnone : fault = none := by simpa [Stage.faultFrames] using hfault
    have hzero : n = 0 := by
      rw [← hshown.all hnone, hpresented]
      rfl
    have hsome : o.screenshot.isSome ∧ n = 0 := ⟨by rw [hscreenshot]; rfl, hzero⟩
    subst hnone
    exact (if_pos hsome).symm

end Ran

/-- What is left after the demo comes to an end: the last frame is saved if that is wanted, and a
run without one is told of. -/
theorem exists_ran_of_played {fault : Option String} {m : Session (Measured Demo.State)}
    (hplay : (Stage.runAlong Demo.app timeline).start (started o s) = (.ok fault, m))
    (hshown : Stage.Shown Demo.app n timeline o.width o.height fault (started o s) m)
    (hdisplay : m.board.display = Snapshot.blank.following (shownFrames o timeline s fault))
    (hwidth : 0 < o.width ∧ Word32.Fits o.width) (hheight : 0 < o.height ∧ Word32.Fits o.height)
    (hcount : n < UInt32.size)
    (hwritable : ∀ path, o.screenshot = some path → s.disk.writable path = true) :
    ∃ result s', (saveScreenshot o.screenshot >>= fun failure =>
        pure (failure.or (fault.map .stopped))).start (played m s.disk) = (.ok result, s') ∧
      Ran o n timeline s fault result s' := by
  cases hscreenshot : o.screenshot with
  | none => exact ⟨_, _, rfl, ran_of_unsaved hplay hshown hdisplay hscreenshot rfl⟩
  | some path =>
    rw [Step.start_bind]
    cases hlast : (shownFrames o timeline s fault).getLast? with
    -- Without a frame the display is as it was when the process started.
    | none =>
      have hnil := List.getLast?_eq_none_iff.1 hlast
      have hblank : (played m s.disk).board.display = .blank := by
        rw [hnil] at hdisplay
        exact hdisplay
      rw [start_saveScreenshot_of_blank hblank]
      exact ⟨_, _, rfl, ran_of_blank hplay hshown hdisplay hscreenshot hnil rfl⟩
    | some f =>
      have hsize := hshown.size f (List.mem_of_getLast? hlast)
      have hlength : (shownFrames o timeline s fault).length < UInt64.size :=
        Nat.lt_of_le_of_lt hshown.length_shown_le (Nat.lt_of_le_of_lt hcount (by decide))
      obtain ⟨disk, hsave, hwrite⟩ :=
        exists_save hlast hlength hsize hwidth hheight (hwritable path hscreenshot)
      have hsave' : (played m s.disk).disk.save path (played m s.disk).board.display =
          .ok disk := by
        show s.disk.save path m.board.display = _
        rw [hdisplay, hsave]
      rw [start_saveScreenshot_of_save hsave']
      exact ⟨_, _, rfl, ran_of_saved hplay hshown hdisplay hscreenshot hlast hwrite⟩

/-- Options that are not refused, on a screen for which there is memory and whose refresh comes. -/
theorem exists_ran {clock : Clock} {ticks : Option Nat} (hboard : s.board = fresh clock ticks)
    (hidle : s.core1.Idle) {period : Option Duration}
    (hperiod : o.simulator.refresh.period = .ok period)
    (hwidth : 0 < o.width ∧ Word32.Fits o.width) (hheight : 0 < o.height ∧ Word32.Fits o.height)
    (hrate : GoodRate o) (hfits : Frame.Fits o.width o.height)
    (hcomes : (installed o s.board).RefreshComes) (hcount : n < UInt32.size)
    (hwritable : ∀ path, o.screenshot = some path → s.disk.writable path = true)
    (htimeline : Stage.Timeline n timeline) :
    ∃ fault result s', (runAlong o timeline).start s = (.ok result, s') ∧
      Ran o n timeline s fault result s' := by
  have hscreen : (started o s).screen.HasSize o.width o.height := Screen.hasSize_new ..
  have hrunning : (installed o s.board).Running := by
    rw [hboard] at hcomes ⊢
    exact running_installed hcomes
  -- Nothing has been presented yet, so all frames of the run and the fault screen can be counted.
  have hroom : (started o s).board.RoomFor (n + 1) := by
    have hzero : (installed o s.board).presented = 0 := by
      rw [hboard]
      rfl
    show (installed o s.board).presented.toNat + (n + 1) < UInt64.size
    rw [hzero, UInt64.toNat_zero, Nat.zero_add]
    exact Nat.lt_of_le_of_lt hcount (by decide)
  obtain ⟨fault, m, hplay, hshown⟩ := Stage.runAlong_shown (Demo.tame_app o.width o.height)
    hrunning hroom (SecondCore.renders_of_idle hidle) hscreen htimeline
  have hdisplay : m.board.display = Snapshot.blank.following (shownFrames o timeline s fault) := by
    rw [hshown.display]
    show (installed o s.board).display.following _ = _
    rw [hboard]
    rfl
  have hcheck := check_of_goodRate hwidth.1 hheight.1 hrate hperiod
  rw [start_runAlong_of_played hboard hperiod hcheck hfits hplay]
  exact ⟨fault, exists_ran_of_played hplay hshown hdisplay hwidth hheight hcount hwritable⟩

/-- Options that are refused leave the device as it was. -/
theorem start_runAlong_of_refused {e : RunError} (hcheck : check o = .ok (some e)) :
    (runAlong o timeline).start s = (.ok (some e), s) := by
  unfold runAlong runWith
  rw [hcheck, Step.start_bind_of_ok (Step.start_ofExcept_ok _ s)]
  rfl

/-- A screen for which there is no memory stops the program before the demo is announced. -/
theorem start_runAlong_of_capacity {clock : Clock} {ticks : Option Nat}
    (hboard : s.board = fresh clock ticks) {period : Option Duration}
    (hperiod : o.simulator.refresh.period = .ok period) (hcheck : check o = .ok none)
    (hfits : ¬ Frame.Fits o.width o.height) :
    (runAlong o timeline).start s =
      (.error (.panic .capacity), { s with board := installed o s.board }) := by
  have hscreen : Screen.allocate o.width o.height = .error .capacity := if_neg hfits
  unfold runAlong runWith
  rw [hcheck, Step.start_bind_of_ok (Step.start_ofExcept_ok _ s)]
  simp only
  rw [Step.start_bind_of_ok (start_setUp hboard hperiod), hscreen,
    Step.start_bind_of_error (Step.start_ofExcept_error _ _)]

/-- The program with a number of frames in a fresh process, in which nothing has been set up and
core 1 has not been started, with files that can be written and a refresh whose period fits. Along
every timeline of the demo's frames, of which the schedule of the program itself is one:

* A screen without pixels is refused, and so is a rate that is not a positive number if the waits
  depend on it. Nothing has changed then.
* A screen that cannot be addressed stops the program. The simulator is installed by then and the
  buttons are held, but nothing has been shown or saved.
* Else, if the waits end at once or the refresh comes whenever it is waited for, the display gets the
  frames that the demo finishes before a fault, which are all of them without one, and after a fault
  the fault screen. The last frame it gets is saved, if that is wanted and there is one. The run
  fails if there was a fault, with its text, or if there was no frame to save. -/
theorem run_presents_saves_and_reports (o : Options) (n : Nat) (timeline : List Stage) (s : Host)
    (clock : Clock) (ticks : Option Nat) (hframes : o.frames = some n) (hcount : n < UInt32.size)
    (hwidth : Word32.Fits o.width) (hheight : Word32.Fits o.height)
    (htimeline : Stage.Timeline n timeline) (hboard : s.board = fresh clock ticks)
    (hidle : s.core1.Idle) (hperiod : ∃ period, o.simulator.refresh.period = .ok period)
    (hwritable : ∀ path, o.screenshot = some path → s.disk.writable path = true) :
    (∀ patience, run o patience = runAlong o (Stage.schedule n)) ∧
    (o.width ≤ 0 ∨ o.height ≤ 0 →
      (runAlong o timeline).start s = (.ok (some (.badSize o.width o.height)), s)) ∧
    (0 < o.width → 0 < o.height → ¬ GoodRate o →
      (runAlong o timeline).start s = (.ok (some (.badRate o.refreshRate)), s)) ∧
    (0 < o.width → 0 < o.height → GoodRate o → ¬ Frame.Fits o.width o.height →
      (runAlong o timeline).start s =
        (.error (.panic .capacity), { s with board := installed o s.board })) ∧
    (0 < o.width → 0 < o.height → GoodRate o → Frame.Fits o.width o.height →
      o.immediate = true ∨ (installed o s.board).RefreshComes →
      ∃ fault result s', (runAlong o timeline).start s = (.ok result, s') ∧
        Ran o n timeline s fault result s') := by
  obtain ⟨period, hperiod⟩ := hperiod
  refine ⟨run_eq_runAlong hframes, fun hsize => ?_, fun hw hh hrate => ?_,
    fun hw hh hrate hfits => ?_, fun hw hh hrate hfits hcomes => ?_⟩
  · exact start_runAlong_of_refused (if_pos hsize)
  · exact start_runAlong_of_refused (check_of_badRate hw hh hrate)
  · exact start_runAlong_of_capacity hboard hperiod (check_of_goodRate hw hh hrate hperiod) hfits
  · have hcomes' := hcomes.elim (fun h => refreshComes_of_immediate h s.board) id
    exact exists_ran hboard hidle hperiod ⟨hw, hwidth⟩ ⟨hh, hheight⟩ hrate hfits hcomes' hcount
      hwritable htimeline

/-- The first frame of the bars is finished on a single pixel. -/
theorem ok_of_single_pixel :
    let o : Options := { Options.initial with
      frames := some 1, immediate := true, width := 1, height := 1, screenshot := some "a.png" }
    let s : Host := ⟨⟨fresh (.start 0 []) none, .initial, #[]⟩, .empty fun _ => true⟩
    ((Stage.runAlong Demo.app (Stage.schedule 1)).start (started o s)).1 = .ok none := by
  decide +kernel

/-- The bars on a single pixel: the only frame is saved, and the run does not fail. -/
theorem run_saves_single_pixel :
    let o : Options := { Options.initial with
      frames := some 1, immediate := true, width := 1, height := 1, screenshot := some "a.png" }
    let s : Host := ⟨⟨fresh (.start 0 []) none, .initial, #[]⟩, .empty fun _ => true⟩
    ∃ s' f, (run o 0).start s = (.ok none, s') ∧ s'.board.display = .capture f 1 ∧
      s'.disk.image? "a.png" = some f ∧ f.width = 1 ∧ f.height = 1 := by
  intro o s
  obtain ⟨hrun, -, -, -, hran⟩ := run_presents_saves_and_reports o 1 (Stage.schedule 1) s
    (.start 0 []) none rfl (by decide) (by decide) (by decide) (by decide) rfl ⟨rfl, rfl⟩
    ⟨none, rfl⟩ (fun _ _ => rfl)
  obtain ⟨fault, result, s', hs', h⟩ :=
    hran (by decide) (by decide) (.inl rfl) (by decide) (.inl rfl)
  obtain ⟨m, hplay, hshown⟩ := h.played
  have hgood : (Except.ok fault : Except Stop (Option String)) = .ok none :=
    (congrArg Prod.fst hplay).symm.trans ok_of_single_pixel
  obtain rfl := Except.ok.inj hgood
  obtain ⟨f, hf⟩ := List.length_eq_one_iff.1 (hshown.all rfl)
  have hframes : shownFrames o (Stage.schedule 1) s none = [f] := by
    rw [shownFrames, hf]
    rfl
  have hcomplaint : complaint o 1 none = none := rfl
  have hresult : result = none := Option.map_eq_none_iff.1 (h.message.trans hcomplaint)
  have hsize := hshown.size f (by rw [hf]; exact List.mem_append_left _ List.mem_cons_self)
  refine ⟨s', f, ?_, ?_, ?_, hsize.1, hsize.2⟩
  · rw [hrun, hs', hresult]
  · rw [h.display, hframes]
    rfl
  · exact (h.saved "a.png" f rfl (by rw [hframes]; rfl)).2

/-- The largest screen of all has positive sizes and is not refused, but the program neither
succeeds nor reports an error. -/
theorem run_of_unaddressable_screen :
    let o : Options := { Options.initial with
      frames := some 0, immediate := true, width := 2147483647, height := 2147483647 }
    let s : Host := ⟨⟨fresh (.start 0 []) none, .initial, #[]⟩, .empty fun _ => true⟩
    Word32.Fits o.width ∧ Word32.Fits o.height ∧ 0 < o.width ∧ 0 < o.height ∧
      o.simulator.refresh.period = .ok none ∧ ((run o 0).start s).1 = .error (.panic .capacity) := by
  decide +kernel

end Handheld.Host
