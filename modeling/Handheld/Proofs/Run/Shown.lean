import Handheld.Proofs.Run.Core1Fault
import Handheld.Proofs.Run.Panics
import Handheld.Proofs.Run.Size

/-!
# The frames that a run shows

Every presentation hands the display what has been drawn since the last one, so the frames that a
run shows are those that the application has finished, in order. If the run ends with a fault, one
more frame follows, the fault screen.

* `presented`: the frames handed to the display along some stages.
* `following_presented`: the display's copy after completed stages.
* `presents_of_getElem?`: the `j`-th of these frames is what was drawn in the `j`-th frame.
* `runAlong_shown`: a run along any timeline, however it ends.
-/

namespace Handheld

/-- The display's copy after frames have been handed to the display. -/
def Snapshot.following (display : Snapshot) (frames : List Frame) : Snapshot :=
  frames.foldl (fun d f => .capture f (d.frame + 1)) display

theorem Snapshot.frame_following (display : Snapshot) (frames : List Frame) :
    (display.following frames).frame = display.frame + UInt64.ofNat frames.length := by
  induction frames generalizing display with
  | nil => exact (UInt64.add_zero _).symm
  | cons f rest ih =>
    show ((capture f (display.frame + 1)).following rest).frame = _
    rw [ih, List.length_cons, Nat.add_comm rest.length, UInt64.ofNat_add, ← UInt64.add_assoc]
    rfl

theorem Snapshot.following_append (display : Snapshot) (first second : List Frame) :
    display.following (first ++ second) = (display.following first).following second :=
  List.foldl_append

/-- The display shows the last frame that it got. -/
theorem Snapshot.following_of_getLast? {display : Snapshot} {frames : List Frame} {f : Frame}
    (h : frames.getLast? = some f) :
    display.following frames = .capture f (display.frame + UInt64.ofNat frames.length) := by
  obtain ⟨earlier, rfl⟩ := List.getLast?_eq_some_iff.1 h
  have hlast : (display.following earlier).following [f] =
      .capture f ((display.following earlier).frame + 1) := rfl
  rw [following_append, hlast, frame_following, List.length_append, List.length_singleton,
    UInt64.ofNat_add, UInt64.add_assoc]
  rfl

/-- The application keeps the size of the canvas, stops with panics of the device only, and starts
nothing on core 1 but the renderer. -/
structure App.Tame {σ : Type} (a : App σ) (w h : Int) : Prop where
  size : a.KeepsSize w h
  stops : a.StopsOnly Panic.OfDevice
  core1 : a.Keeps SecondCore.Renders

/-- The demos are tame on every screen. -/
theorem Demo.tame_app (w h : Int) : Demo.app.Tame w h :=
  ⟨keepsSize_app, stopsOnly_app, keeps_app SecondCore.outlives_renders⟩

namespace Stage

variable {σ : Type} {a : App σ} {n k : Nat} {w h : Int} {s m m' : Session (Measured σ)}
  {i : Stage} {stages done rest timeline : List Stage} {stop : Stop}

/-- The frames handed to the display along the stages, until one of them stops. -/
def presented (a : App σ) : List Stage → Session (Measured σ) → List Frame
  | [], _ => []
  | i :: rest, s =>
    match (perform a i).start s with
    | (.ok _, m) => (if i = .present then [s.screen.target] else []) ++ presented a rest m
    | (.error _, _) => []

theorem presented_cons_of_ok (hi : (perform a i).start s = (.ok (), m)) (rest : List Stage) :
    presented a (i :: rest) s =
      (if i = .present then [s.screen.target] else []) ++ presented a rest m := by
  rw [presented, hi]

theorem presented_cons_of_error (hi : (perform a i).start s = (.error stop, m))
    (rest : List Stage) : presented a (i :: rest) s = [] := by
  rw [presented, hi]

theorem presented_append_of_complete (hdone : Complete a done s m) (rest : List Stage) :
    presented a (done ++ rest) s = presented a done s ++ presented a rest m := by
  induction done generalizing s with
  | nil =>
    rw [Step.completes_nil_iff.1 hdone]
    rfl
  | cons i done ih =>
    obtain ⟨m₁, hi, hrest⟩ := Step.completes_cons_iff.1 hdone
    rw [List.cons_append, presented_cons_of_ok hi, presented_cons_of_ok hi, ih hrest,
      List.append_assoc]

/-- Completed stages hand over as many frames as there are presentations among them. -/
theorem length_presented (hstages : Complete a stages s m) :
    (presented a stages s).length = stages.count .present := by
  induction stages generalizing s with
  | nil => rfl
  | cons i rest ih =>
    obtain ⟨m₁, hi, hrest⟩ := Step.completes_cons_iff.1 hstages
    rw [presented_cons_of_ok hi, List.length_append, ih hrest, List.count_cons, Nat.add_comm]
    by_cases hpresent : i = .present
    · simp [hpresent]
    · simp [hpresent]

/-- Only a presentation changes the display's copy. -/
theorem display_perform (hrun : s.board.Running) (hpresent : i ≠ .present) :
    ((perform a i).start s).2.board.display = s.board.display := by
  by_cases hwait : i = .wait
  · subst hwait
    rw [start_wait hrun]
    rfl
  · rw [board_perform s hwait hpresent]

/-- What the display shows after completed stages. -/
theorem following_presented (hrun : s.board.Running) (hstages : Complete a stages s m) :
    m.board.display = s.board.display.following (presented a stages s) := by
  induction stages generalizing s with
  | nil =>
    rw [Step.completes_nil_iff.1 hstages]
    rfl
  | cons i rest ih =>
    obtain ⟨m₁, hi, hrest⟩ := Step.completes_cons_iff.1 hstages
    rw [presented_cons_of_ok hi, Snapshot.following_append,
      ih (counted_of_start hrun hi).running hrest]
    congr 1
    by_cases hpresent : i = .present
    · subst hpresent
      rw [start_present hrun (roomFor_of_start_present hrun hi)] at hi
      obtain rfl := (Prod.mk.inj hi).2
      exact congrArg (Snapshot.capture s.screen.target <| · + 1) hrun.frame_display.symm
    · rw [if_neg hpresent]
      have hdisplay := display_perform (a := a) hrun hpresent
      rwa [hi] at hdisplay

/-! ## Which frames these are -/

/-- The frame `f` is what is drawn when frame number `j` of the run, counted from zero, is handed to
the display: the stages up to there are those of `j + 1` whole frames, with turns of core 1
anywhere. -/
def Presents (a : App σ) (timeline : List Stage) (s : Session (Measured σ)) (j : Nat)
    (f : Frame) : Prop :=
  ∃ done m, done ++ [.present] <+: timeline ∧ Timeline (j + 1) (done ++ [.present]) ∧
    Complete a done s m ∧ m.screen.target = f

/-- A frame is handed over by a presentation, after as many others as there are before it. -/
theorem exists_of_getElem?_presented {j : Nat} {f : Frame}
    (h : (presented a stages s)[j]? = some f) :
    ∃ done rest m, stages = done ++ .present :: rest ∧ done.count .present = j ∧
      Complete a done s m ∧ m.screen.target = f := by
  induction stages generalizing s j with
  | nil => cases h
  | cons i rest ih =>
    rcases hi : (perform a i).start s with ⟨p | ⟨⟩, m₁⟩
    · rw [presented_cons_of_error hi] at h
      cases h
    rw [presented_cons_of_ok hi] at h
    by_cases hpresent : i = .present
    · rw [if_pos hpresent] at h
      subst hpresent
      cases j with
      | zero => exact ⟨[], rest, s, rfl, rfl, Step.completes_nil_iff.2 rfl, Option.some.inj h⟩
      | succ j =>
        obtain ⟨done, later, m, rfl, hcount, hdone, hf⟩ := ih h
        exact ⟨.present :: done, later, m, rfl, by rw [List.count_cons_self, hcount],
          Step.completes_cons_iff.2 ⟨m₁, hi, hdone⟩, hf⟩
    · rw [if_neg hpresent] at h
      obtain ⟨done, later, m, rfl, hcount, hdone, hf⟩ := ih h
      exact ⟨i :: done, later, m, rfl, by rw [List.count_cons_of_ne hpresent, hcount],
        Step.completes_cons_iff.2 ⟨m₁, hi, hdone⟩, hf⟩

/-- The stages up to a presentation are those of whole frames. -/
theorem timeline_of_present (htimeline : Timeline n (done ++ .present :: rest)) :
    Timeline (done.count .present + 1) (done ++ [.present]) := by
  have hschedule : schedule n =
      done.filter (· ≠ .turn) ++ Stage.present :: rest.filter (· ≠ .turn) := by
    rw [← htimeline, List.filter_append, List.filter_cons_of_pos (by decide)]
  rcases before_stage hschedule with ⟨-, hinit⟩ | ⟨k, -, part, later, hdone, hframe⟩
  · cases hinit
  -- The presentation is the last stage of its frame.
  have hlast : frame (UInt32.ofNat k) =
      [.check, .record, .update (UInt32.ofNat k), .draw (UInt32.ofNat k), .bar, .wait] ++
        Stage.present :: [] := rfl
  obtain rfl := part_unique hlast hframe
  have hcount : done.count .present = k := by
    rw [← List.count_filter (p := (· ≠ Stage.turn)) (by decide), hdone, List.count_append,
      count_present_schedule]
    simp
  rw [hcount]
  show (done ++ [Stage.present]).filter (· ≠ Stage.turn) = _
  rw [List.filter_append, hdone, schedule_succ, List.append_assoc]
  rfl

/-- The `j`-th frame that is shown is what was drawn in the `j`-th frame of the run. -/
theorem presents_of_getElem? (htimeline : Timeline n timeline) {j : Nat} {f : Frame}
    (h : (presented a timeline s)[j]? = some f) : Presents a timeline s j f := by
  obtain ⟨done, rest, m, rfl, rfl, hdone, hf⟩ := exists_of_getElem?_presented h
  exact ⟨done, m, ⟨rest, by simp⟩, timeline_of_present htimeline, hdone, hf⟩

theorem hasSize_of_mem_presented (happ : a.KeepsSize w h) (hs : s.screen.HasSize w h) {f : Frame}
    (hf : f ∈ presented a stages s) : f.HasSize w h := by
  obtain ⟨j, hj⟩ := List.getElem?_of_mem hf
  obtain ⟨done, rest, m, -, -, hdone, rfl⟩ := exists_of_getElem?_presented hj
  exact (hasSize_of_complete happ hdone hs).1

/-! ## How a run can end -/

/-- A text that is no longer than those of the device can be shown. -/
theorem faultFits_of_length_le {text : String} (h : text.length ≤ 140) (width : Nat) :
    Console.FaultFits width text := by
  refine Console.faultFits_of_length_lt ?_ width
  rw [String.length_toList]
  unfold Text.lineLimit
  omega

/-- What stops a run of a tame application is a panic with a short text. -/
theorem exists_panic_of_stop (happ : a.Tame w h) (hrun : s.board.Running)
    (hroom : s.board.RoomFor 1) (hcore1 : s.core1.Renders) (hfault : ∀ message, i ≠ .fault message)
    (hi : (perform a i).start s = (.error stop, m)) :
    ∃ p, stop = .panic p ∧ p.message.length ≤ 140 := by
  -- All texts of the device are short enough.
  have hdevice : ∀ {α : Type} {step : Step (Session (Measured σ)) α},
      step.StopsOnly Panic.OfDevice → (step.start s).1 = .error stop →
        ∃ p, stop = .panic p ∧ p.message.length ≤ 140 := by
    intro α step hstep hstop
    obtain ⟨p, hp, hof⟩ := hstep s stop hstop
    exact ⟨p, hp, (Panic.length_message_le hof).trans (by decide)⟩
  have hinside : (Measured.inside a).StopsOnly Panic.OfDevice := happ.stops.inside
  have hstop : ((perform a i).start s).1 = .error stop := congrArg Prod.fst hi
  cases i with
  | init => exact hdevice (stopsOnly_onScene hinside.init) hstop
  | update tick => exact hdevice (stopsOnly_backstage fun b => hinside.update b tick) hstop
  | draw tick => exact hdevice (stopsOnly_onScene fun b => hinside.draw b tick) hstop
  | record => exact hdevice (stopsOnly_backstage stopsOnly_recordFrame) hstop
  | check =>
    rw [start_check] at hstop
    split at hstop
    · next message hmessage =>
      exact ⟨_, (Except.error.inj hstop).symm, hcore1.length_core1Text_le hmessage⟩
    · cases hstop
  | bar =>
    obtain ⟨_, hok⟩ := exists_start_bar a s
    rw [hok] at hstop
    cases hstop
  | wait =>
    rw [start_wait hrun] at hstop
    cases hstop
  | present =>
    rw [start_present hrun hroom] at hstop
    cases hstop
  | fault message => exact absurd rfl (hfault message)
  | turn => cases hstop

/-! ## The whole run -/

/-- The fault screen of a run that ended with a fault. -/
def faultFrames (w h : Int) (fault : Option String) : List Frame :=
  fault.toList.map (Console.faultScreen w.toNat h.toNat)

/-- A run of `n` frames along a timeline ended in `s'`. It has shown the frames that were finished
up to then, which are the first ones of the application, and all of them if there was no fault; and
after them the fault screen, if there was one, and nothing else. -/
structure Shown (a : App σ) (n : Nat) (timeline : List Stage) (w h : Int) (fault : Option String)
    (s s' : Session (Measured σ)) : Prop where
  presents : ∀ j f, (presented a timeline s)[j]? = some f → Presents a timeline s j f
  length_le : (presented a timeline s).length ≤ n
  all : fault = none → (presented a timeline s).length = n
  size : ∀ f ∈ presented a timeline s ++ faultFrames w h fault, f.HasSize w h
  display : s'.board.display =
    s.board.display.following (presented a timeline s ++ faultFrames w h fault)

/-- There is at most one frame more than the run has. -/
theorem Shown.length_shown_le {fault : Option String} {s' : Session (Measured σ)}
    (hshown : Shown a n timeline w h fault s s') :
    (presented a timeline s ++ faultFrames w h fault).length ≤ n + 1 := by
  rw [List.length_append, faultFrames, List.length_map]
  have hfault : fault.toList.length ≤ 1 := by
    cases fault <;> simp
  exact Nat.add_le_add hshown.length_le hfault

theorem hasSize_of_mem_faultFrames {fault : Option String} {f : Frame}
    (hf : f ∈ faultFrames w h fault) : f.HasSize w h := by
  obtain ⟨text, -, rfl⟩ := List.mem_map.1 hf
  exact ⟨Console.width_faultScreen .., Console.height_faultScreen ..⟩

/-- The stages of a run of `n` frames along a timeline have come to an end in `m`, and the report
goes on from there: it can show the text if there is one. -/
structure Ended (a : App σ) (n : Nat) (timeline : List Stage) (w h : Int)
    (outcome : Except Panic Unit) (s m : Session (Measured σ)) : Prop where
  stages : (Step.each (perform a) timeline).start s = (outcome.mapError .panic, m)
  running : m.board.Running
  room : m.board.RoomFor 1
  size : m.screen.HasSize w h
  fits : ∀ text, endText m outcome = some text → Console.FaultFits m.screen.width text
  display : m.board.display = s.board.display.following (presented a timeline s)
  length_le : (presented a timeline s).length ≤ n
  all : outcome = .ok () → (presented a timeline s).length = n

/-- After a run that completes all frames have been shown. -/
theorem ended_of_complete (happ : a.Tame w h) (hrun : s.board.Running)
    (hroom : s.board.RoomFor (n + 1)) (hcore1 : s.core1.Renders) (hs : s.screen.HasSize w h)
    (htimeline : Timeline n timeline) (hm : Complete a timeline s m) :
    Ended a n timeline w h (.ok ()) s m := by
  have hcounted := counted_of_complete hrun hm
  have hcount : timeline.count .present = n := by
    rw [htimeline.count_eq Stage.noConfusion, count_present_schedule]
  have hlength : (presented a timeline s).length = n := (length_presented hm).trans hcount
  refine ⟨hm, hcounted.running, hcounted.roomFor (hcount ▸ hroom),
    hasSize_of_complete happ.size hm hs, fun text htext => ?_, following_presented hrun hm,
    Nat.le_of_eq hlength, fun _ => hlength⟩
  -- A fault that no check has found is one of the device.
  have hm1 : m.core1.Renders :=
    core1_of_complete happ.core1 (fun _ => SecondCore.renders_turn) hm hcore1
  obtain ⟨fault, hfault, rfl⟩ := Option.map_eq_some_iff.1 htext
  exact faultFits_of_length_le (hm1.length_core1Text_le hfault) _

/-- After a run that stops the frames have been shown that were finished before. -/
theorem exists_ended_of_stop (happ : a.Tame w h) (hrun : s.board.Running)
    (hroom : s.board.RoomFor (n + 1)) (hcore1 : s.core1.Renders) (hs : s.screen.HasSize w h)
    (htimeline : Timeline n (done ++ i :: rest)) (hdone : Complete a done s m)
    (hstop : (perform a i).start m = (.error stop, m')) :
    ∃ p, Ended a n (done ++ i :: rest) w h (.error p) s m' := by
  have hcounted := counted_of_complete hrun hdone
  have hcount : done.count .present ≤ n := by
    have htotal := htimeline.count_eq (i := .present) Stage.noConfusion
    rw [count_present_schedule, List.count_append] at htotal
    exact Nat.le_of_add_right_le (Nat.le_of_eq htotal)
  have hroom' : m.board.RoomFor 1 := hcounted.roomFor (hroom.mono (Nat.succ_le_succ hcount))
  have hfault : ∀ message, i ≠ .fault message := by
    rintro message rfl
    refine fault_not_mem_schedule message n (htimeline ▸ List.mem_filter.2 ⟨?_, by simp⟩)
    exact List.mem_append_right _ List.mem_cons_self
  obtain ⟨p, rfl, hp⟩ := exists_panic_of_stop happ hcounted.running hroom'
    (core1_of_complete happ.core1 (fun _ => SecondCore.renders_turn) hdone hcore1) hfault hstop
  -- Neither a wait nor a presentation stops, so the stage that does leaves the board alone.
  have hboard : m'.board = m.board := by
    have hwait : i ≠ .wait := by
      rintro rfl
      rw [start_wait hcounted.running] at hstop
      cases hstop
    have hpresent : i ≠ .present := by
      rintro rfl
      rw [start_present hcounted.running hroom'] at hstop
      cases hstop
    have hsame := board_perform (a := a) m hwait hpresent
    rwa [hstop] at hsame
  have hshown : presented a (done ++ i :: rest) s = presented a done s := by
    rw [presented_append_of_complete hdone, presented_cons_of_error hstop, List.append_nil]
  refine ⟨p, Step.start_each_of_stop hdone hstop, hboard ▸ hcounted.running, hboard ▸ hroom', ?_,
    fun text htext => ?_, ?_, ?_, nofun⟩
  · have hsize := hasSize_perform happ.size i (hasSize_of_complete happ.size hdone hs)
    rwa [hstop] at hsize
  · obtain rfl := Option.some.inj htext
    exact faultFits_of_length_le hp _
  · rw [hboard, following_presented hrun hdone, hshown]
  · rw [hshown, length_presented hdone]
    exact hcount

/-- A run of a tame application comes to an end. -/
theorem exists_ended (happ : a.Tame w h) (hrun : s.board.Running)
    (hroom : s.board.RoomFor (n + 1)) (hcore1 : s.core1.Renders) (hs : s.screen.HasSize w h)
    (htimeline : Timeline n timeline) : ∃ outcome m, Ended a n timeline w h outcome s m := by
  rcases Step.completes_or_stops (perform a) timeline s with
    ⟨m, hm⟩ | ⟨done, i, rest, m, stop, m', rfl, hdone, hstop⟩
  · exact ⟨_, m, ended_of_complete happ hrun hroom hcore1 hs htimeline hm⟩
  · obtain ⟨p, hended⟩ := exists_ended_of_stop happ hrun hroom hcore1 hs htimeline hdone hstop
    exact ⟨_, m', hended⟩

/-- The report hands the fault screen to the display, or nothing. -/
theorem Ended.exists_report {outcome : Except Panic Unit}
    (hend : Ended a n timeline w h outcome s m) :
    ∃ s', (runAlong a timeline).start s = (.ok (endText m outcome), s') ∧
      s'.board.display = s.board.display.following
        (presented a timeline s ++ faultFrames w h (endText m outcome)) := by
  rw [start_runAlong _ hend.stages, start_report _ hend.running hend.room hend.fits,
    Snapshot.following_append, ← hend.display]
  refine ⟨_, rfl, ?_⟩
  cases endText m outcome with
  | none => rfl
  | some text =>
    have hwidth : m.screen.width = w.toNat := hend.size.1.1
    have hheight : m.screen.height = h.toNat := hend.size.1.2
    have hshown : (m.toConsole.faulted text).board.display =
        .capture (m.toConsole.faulted text).screen.front (m.board.presented + 1) := rfl
    show (m.toConsole.faulted text).board.display = _
    rw [hshown, Console.front_faulted, hwidth, hheight, ← hend.running.frame_display]
    rfl

/-- A run of a measured application along a timeline of `n` frames returns no fault or a fault, and
shows the frames that were finished before it and then the fault screen, all of the size of the
screen. -/
theorem runAlong_shown (happ : a.Tame w h) (hrun : s.board.Running)
    (hroom : s.board.RoomFor (n + 1)) (hcore1 : s.core1.Renders) (hs : s.screen.HasSize w h)
    (htimeline : Timeline n timeline) :
    ∃ fault s', (runAlong a timeline).start s = (.ok fault, s') ∧
      Shown a n timeline w h fault s s' := by
  obtain ⟨outcome, m, hend⟩ := exists_ended happ hrun hroom hcore1 hs htimeline
  obtain ⟨s', hs', hdisplay⟩ := hend.exists_report
  refine ⟨_, s', hs', fun _ _ => presents_of_getElem? htimeline, hend.length_le, fun hnone => ?_,
    fun f hf => ?_, hdisplay⟩
  · cases outcome with
    | ok => exact hend.all rfl
    | error p => cases hnone
  · rcases List.mem_append.1 hf with hf | hf
    · exact hasSize_of_mem_presented happ.size hs hf
    · exact hasSize_of_mem_faultFrames hf

end Stage

end Handheld
