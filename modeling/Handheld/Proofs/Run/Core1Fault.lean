import Handheld.Proofs.Console.FaultPixels
import Handheld.Proofs.Run.Kept
import Handheld.Proofs.Run.Progress

/-!
# Faults of core 1

A measured run in which core 1 stops at any moment, while core 0 raises no stop of its own. Core 1
takes its turns anywhere in the timeline of the run.

* `before_next_check`: what is done between a moment and the next check.
* `runAlong_of_check`, `runAlong_of_complete`: the two ways in which a fault is found.
* `runAlong_shows_core1_fault`: wherever a fault is recorded, it ends the run with the same text and
  the same frames.
-/

namespace Handheld.Stage

variable {σ : Type} {a : App σ} {n : Nat} {s m m' : Session (Measured σ)}
  {before after timeline : List Stage}

/-- A timeline of a run of `n` frames: its schedule, with turns of core 1 anywhere. -/
def Timeline (n : Nat) (timeline : List Stage) : Prop := timeline.filter (· ≠ .turn) = schedule n

instance (n : Nat) (timeline : List Stage) : Decidable (Timeline n timeline) :=
  inferInstanceAs (Decidable (_ = _))

/-- Core 0 raises no stop of its own: where the run comes to a stage that is no check, it goes
on. -/
def Core0GoesOn (a : App σ) (timeline : List Stage) (s : Session (Measured σ)) : Prop :=
  ∀ done i m, done ++ [i] <+: timeline → i ≠ .check → Complete a done s m →
    ∃ m', (perform a i).start m = (.ok (), m')

/-- If a whole timeline completes, core 0 goes on everywhere in it. -/
theorem core0GoesOn_of_complete (h : Complete a timeline s m') : Core0GoesOn a timeline s := by
  rintro done i m ⟨rest, rfl⟩ - hdone
  obtain ⟨m₂, hfirst, -⟩ := Step.completes_append_iff.1 h
  obtain ⟨m₁, hdone', hi⟩ := Step.completes_append_iff.1 hfirst
  rw [Step.completes_singleton_iff, hdone.unique hdone'] at hi
  exact ⟨m₂, hi⟩

/-- What is no turn of core 1 is done along the timeline as often as the schedule says. -/
theorem Timeline.count_eq {i : Stage} (h : Timeline n timeline) (hi : i ≠ .turn) :
    timeline.count i = (schedule n).count i := by
  rw [← h, List.count_filter (by simpa using hi)]

/-- From any moment on, whole frames are done up to the next check or up to the end. -/
theorem before_next_check (h : Timeline n (before ++ after)) :
    ∃ mid rest, after = mid ++ rest ∧ .check ∉ mid ∧
      Timeline (before.count .check) (before ++ mid) ∧
      ((rest = [] ∧ before.count .check = n) ∨
        ∃ later, rest = .check :: later ∧ before.count .check < n) := by
  have hcount : before.count .check + after.count .check = n := by
    rw [← List.count_append, h.count_eq Stage.noConfusion, count_check_schedule]
  -- Up to the next check no frame begins, so the frame that was begun is done to its end.
  by_cases hmem : Stage.check ∈ after
  · obtain ⟨mid, later, rfl, hmid⟩ := List.eq_append_cons_of_mem hmem
    have hcheck : (before ++ mid).count .check = before.count .check := by
      rw [List.count_append, List.count_eq_zero_of_not_mem hmid, Nat.add_zero]
    have hschedule : schedule n =
        (before ++ mid).filter (· ≠ .turn) ++ Stage.check :: later.filter (· ≠ .turn) := by
      rw [← h, ← List.append_assoc, List.filter_append, List.filter_cons_of_pos (by decide)]
    refine ⟨mid, .check :: later, rfl, hmid, ?_, .inr ⟨later, rfl, ?_⟩⟩
    · rw [← hcheck, ← List.count_filter (p := (· ≠ .turn)) (by decide)]
      exact eq_schedule_of_check hschedule
    · rw [List.count_append, List.count_cons_self] at hcount
      omega
  · rw [List.count_eq_zero_of_not_mem hmem, Nat.add_zero] at hcount
    refine ⟨after, [], (List.append_nil _).symm, hmem, ?_, .inl ⟨rfl, hcount⟩⟩
    rwa [hcount]

/-- From any moment on, core 0 gets to the next check. -/
theorem complete_of_core0GoesOn {mid rest : List Stage}
    (hgoes : Core0GoesOn a (before ++ (mid ++ rest)) s) (hbefore : Complete a before s m)
    (hmid : .check ∉ mid) : ∃ m', Complete a mid m m' := by
  rcases Step.completes_or_stops (perform a) mid m with
    h | ⟨done, i, later, m₁, p, m₂, rfl, hdone, hstop⟩
  · exact h
  have hcheck : i ≠ .check := by
    rintro rfl
    exact hmid (List.mem_append_right _ List.mem_cons_self)
  obtain ⟨m', hok⟩ := hgoes (before ++ done) i m₁ ⟨later ++ rest, by simp⟩ hcheck
    (Step.completes_append_iff.2 ⟨m, hbefore, hdone⟩)
  rw [hok] at hstop
  cases hstop

/-! ## The end of the run -/

/-- Along whole frames as many refreshes are waited for, and as many frames shown, as there are. -/
theorem counted_of_timeline {k : Nat} (hrun : s.board.Running) (hk : Timeline k timeline)
    (h : Complete a timeline s m) : Counted k k s m := by
  have hcounted := counted_of_complete hrun h
  rwa [hk.count_eq Stage.noConfusion, hk.count_eq Stage.noConfusion, count_wait_schedule,
    count_present_schedule] at hcounted

/-- Each whole frame records its start, and the first one only sets the reference point. -/
theorem frames_of_timeline {k : Nat} (hrun : s.board.Running) (hk : Timeline k timeline)
    (h : Complete a timeline s m) (hstats : s.app.stats = .initial) :
    m.app.stats.frames.toNat = k - 1 := by
  have hcounts := counts_of_complete hrun (hstats ▸ FrameStats.counts_initial) h
  rw [Nat.zero_add, hk.count_eq Stage.noConfusion, count_record_schedule] at hcounts
  exact hcounts.frames_eq

/-- A check that comes next finds the fault, whatever follows it. -/
theorem runAlong_of_check {message : String} (h : Complete a before s m)
    (hfault : m.core1.fault = some message) (later : List Stage) :
    (runAlong a (before ++ Stage.check :: later)).start s =
      (Session.report (.error (.core1 message))).start m := by
  have hcheck : (perform a .check).start m = (.error (.panic (.core1 message)), m) := by
    rw [start_check, hfault]
  exact start_runAlong (.error (.core1 message)) (Step.start_each_of_stop h hcheck)

/-- The report finds a fault that no check has found. -/
theorem runAlong_of_complete {message : String} (h : Complete a timeline s m)
    (hfault : m.core1.fault = some message) :
    (runAlong a timeline).start s = (Session.report (.error (.core1 message))).start m := by
  have hend : endText m (.ok ()) = endText m (.error (.core1 message)) := by
    rw [show endText m (.ok ()) = m.core1.fault.map Panic.core1Text from rfl, hfault]
    rfl
  rw [start_runAlong (.ok ()) h, start_report_eq, start_report_eq, hend]

/-- The report of a fault of core 1 shows its text as one more frame, or stops if it cannot be
drawn. -/
theorem exists_report {k : Nat} (h : Counted k k s m) (hroom : m.board.RoomFor 1)
    (message : String) :
    let text := Panic.core1Text message
    ∃ result s', (Session.report (.error (.core1 message))).start m = (result, s') ∧
      (Console.FaultFits m.screen.width text →
        result = .ok (some text) ∧ ShowsFault a text k s m s') ∧
      (¬ Console.FaultFits m.screen.width text →
        result = .error (.panic (.overflow .multiply)) ∧
          ∃ canvas, s' = { m with screen := m.screen.withCanvas canvas }) ∧
      s'.app = m.app := by
  intro text
  by_cases hfits : Console.FaultFits m.screen.width text
  · have hreport := start_report (.error (.core1 message)) h.running hroom
      fun _ htext => Option.some.inj htext ▸ hfits
    exact ⟨_, _, hreport, fun _ => ⟨rfl, showsFault_faulted h hroom hfits⟩,
      fun hno => absurd hfits hno, rfl⟩
  · obtain ⟨canvas, hstop⟩ := exists_start_report_of_not_fits (.error (.core1 message)) rfl hfits
    exact ⟨_, _, hstop, fun hyes => absurd hyes hfits, fun _ => ⟨rfl, canvas, rfl⟩, rfl⟩

/-- A measured run of `n` frames along a timeline, in which core 0 raises no stop of its own and no
callback takes back a fault, while all frames can be counted. Wherever core 1 has recorded a fault,
`k` checks after the start, whole frames go on to be done: `k` of them in all, and no stage of
another. Then the run ends with the text of the fault, which the fault screen shows as frame `k + 1`,
after one more wait, whether a check has found the fault or the report after the last frame. If `k`
is less than `n` it was a check, so what would come after the timeline makes no difference, and a
run without end stops there as well. A text of too many lines stops the run in its place, with
nothing more shown. -/
theorem runAlong_shows_core1_fault (a : App σ) (happ : a.KeepsFault) (n : Nat)
    (before after : List Stage) (s m : Session (Measured σ)) (message : String)
    (htimeline : Timeline n (before ++ after)) (hrun : s.board.Running)
    (hroom : s.board.RoomFor (n + 1)) (hgoes : Core0GoesOn a (before ++ after) s)
    (hbefore : Complete a before s m) (hfault : m.core1.fault = some message) :
    let k := before.count .check
    let text := "core 1 panicked: " ++ message
    ∃ done m' result s', before <+: done ∧ done <+: before ++ after ∧
      Timeline k done ∧ Complete a done s m' ∧
      (runAlong a (before ++ after)).start s = (result, s') ∧
      (Console.FaultFits m'.screen.width text →
        result = .ok (some text) ∧ ShowsFault a text k s m' s') ∧
      (¬ Console.FaultFits m'.screen.width text →
        result = .error (.panic (.overflow .multiply)) ∧
          ∃ canvas, s' = { m' with screen := m'.screen.withCanvas canvas }) ∧
      (s.app.stats = .initial → s'.app.stats.frames.toNat = k - 1) ∧
      (k < n → ∀ more, (runAlong a (before ++ after ++ more)).start s = (result, s')) ∧
      (before ++ after = schedule n →
        (Session.runMeasured a n).start s = (result, s')) := by
  intro k text
  obtain ⟨mid, rest, rfl, hmid, hdone, hrest⟩ := before_next_check htimeline
  obtain ⟨m', hm'⟩ := complete_of_core0GoesOn hgoes hbefore hmid
  have hcomplete : Complete a (before ++ mid) s m' :=
    Step.completes_append_iff.2 ⟨m, hbefore, hm'⟩
  -- The fault is still there when the next check comes, or the report.
  have hfault' := fault_of_complete happ hm' hfault
  have hcounted := counted_of_timeline hrun hdone hcomplete
  have hframes := frames_of_timeline hrun hdone hcomplete
  have hk : k ≤ n := by
    rcases hrest with ⟨-, hn⟩ | ⟨-, -, hn⟩
    · exact Nat.le_of_eq hn
    · exact Nat.le_of_lt hn
  have hroom' : m'.board.RoomFor 1 := hcounted.roomFor (hroom.mono (Nat.succ_le_succ hk))
  have hends : (runAlong a (before ++ (mid ++ rest))).start s =
      (Session.report (.error (.core1 message))).start m' := by
    rw [← List.append_assoc]
    rcases hrest with ⟨rfl, -⟩ | ⟨later, rfl, -⟩
    · rw [List.append_nil]
      exact runAlong_of_complete hcomplete hfault'
    · exact runAlong_of_check hcomplete hfault' later
  obtain ⟨result, s', hreport, hshown, hunshown, hstats⟩ := exists_report hcounted hroom' message
  refine ⟨before ++ mid, m', result, s', List.prefix_append _ _, ⟨rest, List.append_assoc _ _ _⟩,
    hdone, hcomplete, hends.trans hreport, hshown, hunshown, fun hinitial => ?_, ?_, ?_⟩
  · rw [hstats]
    exact hframes hinitial
  · intro hk more
    rcases hrest with ⟨-, hn⟩ | ⟨later, rfl, -⟩
    · exact absurd hn (Nat.ne_of_lt hk)
    · rw [← List.append_assoc, List.append_assoc (before ++ mid), List.cons_append, ← hreport]
      exact runAlong_of_check hcomplete hfault' (later ++ more)
  · intro hschedule
    rw [runMeasured_eq_runAlong, ← hschedule]
    exact hends.trans hreport

/-- An application that does nothing but start core 1. -/
def launching (entry : Entry) : App Unit where
  init b := Scene.backstage (Backstage.second (SecondCore.launch b entry))
  update _ _ := pure ()
  draw _ _ := pure ()

theorem keepsFault_launching (entry : Entry) : (launching entry).KeepsFault := by
  intro message
  refine ⟨fun b => ?_, fun _ _ => Step.keeps_pure (), fun _ _ => Step.keeps_pure ()⟩
  exact keeps_backstage (P := (·.fault = some message))
    fun _ h => SecondCore.keepsFault_launch b entry _ h

/-- The run of the next theorem goes to its end, with the fault recorded before the drawing. -/
theorem exists_complete_launching :
    ∃ m m', Complete (launching (.fail 0 (.text "boom"))) [.init, .check, .record, .update 0, .turn]
        ⟨Console.simulated (.start 0 []) 4 3, .new ()⟩ m ∧
      m.core1.fault = some "boom" ∧
      Complete (launching (.fail 0 (.text "boom")))
        ([.init, .check, .record, .update 0, .turn] ++ [.draw 0, .bar, .wait, .present])
        ⟨Console.simulated (.start 0 []) 4 3, .new ()⟩ m' :=
  ⟨_, _, Step.completes_of_ok (by decide +kernel), by decide +kernel,
    Step.completes_of_ok (by decide +kernel)⟩

/-- Core 1 throws in the only frame of a run, after the last check. The frame is shown, and then the
fault screen. -/
theorem runAlong_launching :
    ∃ s', (runAlong (launching (.fail 0 (.text "boom")))
        [.init, .check, .record, .update 0, .turn, .draw 0, .bar, .wait, .present]).start
        ⟨Console.simulated (.start 0 []) 4 3, .new ()⟩ =
          (.ok (some "core 1 panicked: boom"), s') ∧
      s'.board.display.frame = 2 := by
  obtain ⟨m, m', hbefore, hfault, hcomplete⟩ := exists_complete_launching
  obtain ⟨_, _, _, s', -, -, -, -, hs', hfits, -⟩ := runAlong_shows_core1_fault _
    (keepsFault_launching _) 1 _ _ _ m "boom" (by decide) (Board.running_simulated _) (by decide)
    (core0GoesOn_of_complete hcomplete) hbefore hfault
  obtain ⟨hresult, hshows⟩ := hfits (Console.faultFits_of_length_lt (by decide) _)
  refine ⟨s', hs'.trans (Prod.ext hresult rfl), ?_⟩
  rw [hshows.display]
  exact UInt64.toNat_inj.1 hshows.presented

end Handheld.Stage
