import Handheld.Proofs.Canvas.Writing
import Handheld.Proofs.Console.Running
import Handheld.Proofs.Sequence

/-!
# Double buffering

Programs that draw on a screen, wait for the refresh and flip, in any order and any number of times.
A program completes unless it comes to a text of too many lines, or to a flip of more frames than
can be counted.

* `exists_completes_iff`: which programs complete.
* `front_performed`, `display_performed`: only a flip changes what is shown.
* `hasSize_performed`: every call keeps the size of both frames, whether it stops or not.
* `double_buffering`: what is shown, and what is drawn on next, after any program from a new screen.
-/

namespace Handheld

/-- What a program can do with a screen. -/
inductive ScreenCall where
  /-- Carry out a drawing command. -/
  | draw (command : Command)
  /-- Wait for the refresh. -/
  | waitRefresh
  /-- Hand the drawn frame to the display. -/
  | flip

/-- The call is a flip. -/
def ScreenCall.isFlip : ScreenCall → Bool
  | .flip => true
  | .draw _ | .waitRefresh => false

/-- The frame has the size, negative numbers counted as zero. -/
def Frame.HasSize (f : Frame) (w h : Int) : Prop := f.width = w.toNat ∧ f.height = h.toNat

theorem Frame.size_pixels_of_hasSize {f : Frame} {w h : Int} (hf : f.HasSize w h) :
    f.pixels.size = w.toNat * h.toNat := by
  rw [f.size_eq, hf.1, hf.2]

/-- Both frames of the screen have the size. -/
def Screen.HasSize (s : Screen) (w h : Int) : Prop := s.target.HasSize w h ∧ s.front.HasSize w h

theorem Screen.hasSize_new (w h : Int) : (Screen.new w h).HasSize w h :=
  ⟨⟨rfl, rfl⟩, ⟨rfl, rfl⟩⟩

/-- A text among the calls can be drawn. -/
def ScreenCall.Fits : ScreenCall → Prop
  | .draw (.text text _ _ wrap) => Text.Drawable text wrap
  | _ => True

namespace Console

open ScreenCall (isFlip)

/-- Do one call. -/
def perform : ScreenCall → Step Console Unit
  | .draw command => draw (Canvas.exec command)
  | .waitRefresh => waitRefresh
  | .flip => flip

/-- The console after one call on a running board. -/
def performed (c : Console) : ScreenCall → Console
  | .draw command =>
    { c with screen := c.screen.withCanvas ((Canvas.exec command).start c.screen.canvas).2 }
  | .waitRefresh => c.waited
  | .flip => c.shown

variable {c s : Console} {w h : Int} {program : List ScreenCall} {call : ScreenCall}

theorem running_performed (h : c.board.Running) (call : ScreenCall) :
    (c.performed call).board.Running := by
  cases call with
  | draw command => exact h
  | waitRefresh => exact Board.running_waited h
  | flip => exact running_shown h

/-- Only a text may stop a drawing. -/
theorem fst_start_exec (command : Command) (canvas : Canvas) :
    ((Canvas.exec command).start canvas).1 = .ok () ↔ (ScreenCall.draw command).Fits := by
  cases command with
  | text text x y wrap =>
    show ((Canvas.write text x y wrap).start canvas).1 = .ok () ↔ Text.Drawable text wrap
    rw [Canvas.fst_start_write]
    split <;> simp_all
  | _ => exact iff_of_true rfl trivial

/-- A call on a running board completes exactly if its text can be drawn and its frame counted. -/
theorem start_perform_iff (h : c.board.Running) :
    (perform call).start c = (.ok (), s) ↔
      call.Fits ∧ c.board.RoomFor ([call].countP isFlip) ∧ s = c.performed call := by
  have hnone : c.board.RoomFor 0 := c.board.presented.toNat_lt
  cases call with
  | draw command =>
    have hstart : (perform (.draw command)).start c =
      (((Canvas.exec command).start c.screen.canvas).1, c.performed (.draw command)) := rfl
    rw [hstart, Prod.mk.injEq, fst_start_exec]
    exact ⟨fun h => ⟨h.1, hnone, h.2.symm⟩, fun h => ⟨h.1, h.2.2.symm⟩⟩
  | waitRefresh =>
    rw [perform, start_waitRefresh_of_running h, Prod.mk.injEq]
    exact ⟨fun h => ⟨trivial, hnone, h.2.symm⟩, fun h => ⟨rfl, h.2.2.symm⟩⟩
  | flip =>
    constructor
    · intro hflip
      have hroom := roomFor_of_start_flip h hflip
      rw [perform, start_flip_of_running h hroom] at hflip
      exact ⟨trivial, hroom, (Prod.mk.inj hflip).2.symm⟩
    · rintro ⟨-, hroom, rfl⟩
      exact start_flip_of_running h hroom

theorem toNat_presented_performed (hroom : c.board.RoomFor ([call].countP isFlip)) :
    (c.performed call).board.presented.toNat =
      c.board.presented.toNat + [call].countP isFlip := by
  cases call with
  | draw | waitRefresh => rfl
  | flip => exact toNat_presented_shown hroom

/-- A program on a running board completes exactly if its texts can be drawn and its frames
counted. -/
theorem completes_iff (h : c.board.Running) :
    Step.Completes perform program c s ↔
      (∀ call ∈ program, call.Fits) ∧ c.board.RoomFor (program.countP isFlip) ∧
        s = program.foldl performed c := by
  induction program generalizing c with
  | nil => simp [show c.board.RoomFor 0 from c.board.presented.toNat_lt]
  | cons call rest ih =>
    rw [Step.completes_cons_iff, ← List.singleton_append, List.countP_append]
    constructor
    · rintro ⟨m, hcall, hrest⟩
      obtain ⟨hfits, hroom, rfl⟩ := (start_perform_iff h).1 hcall
      obtain ⟨hfits', hroom', hs⟩ :=
        (ih (running_performed h call)).1 hrest
      refine ⟨List.forall_mem_cons.2 ⟨hfits, hfits'⟩, ?_, hs⟩
      rwa [Board.RoomFor, toNat_presented_performed hroom, Nat.add_assoc] at hroom'
    · rintro ⟨hfits, hroom, hs⟩
      obtain ⟨hfits, hfits'⟩ := List.forall_mem_cons.1 hfits
      have hcall := hroom.mono (Nat.le_add_right _ _)
      refine ⟨_, (start_perform_iff h).2 ⟨hfits, hcall, rfl⟩,
        (ih (running_performed h call)).2 ⟨hfits', ?_, hs⟩⟩
      rwa [Board.RoomFor, toNat_presented_performed hcall, Nat.add_assoc]

/-- Which programs complete. -/
theorem exists_completes_iff (h : c.board.Running) :
    (∃ s, Step.Completes perform program c s) ↔
      (∀ call ∈ program, call.Fits) ∧ c.board.RoomFor (program.countP isFlip) := by
  simp only [completes_iff h, exists_and_left, exists_eq, and_true]

theorem running_of_completes (h : c.board.Running) (hs : Step.Completes perform program c s) :
    s.board.Running := by
  refine hs.invariant (P := (·.board.Running)) (fun call _ m m' hm hcall => ?_) h
  obtain ⟨-, -, rfl⟩ := (start_perform_iff hm).1 hcall
  exact running_performed hm call

/-! ## What is shown -/

/-- What a call leaves that is no flip, whether it stops or not. -/
theorem start_perform_of_no_flip (hrun : c.board.Running) (h : call.isFlip = false) :
    ((perform call).start c).2 = c.performed call := by
  cases call with
  | draw command => rfl
  | waitRefresh => rw [perform, start_waitRefresh_of_running hrun]; rfl
  | flip => cases h

@[simp]
theorem front_performed (h : call.isFlip = false) (c : Console) :
    (c.performed call).screen.front = c.screen.front := by
  cases call with
  | draw | waitRefresh => rfl
  | flip => cases h

@[simp]
theorem display_performed (h : call.isFlip = false) (c : Console) :
    (c.performed call).board.display = c.board.display := by
  cases call with
  | draw | waitRefresh => rfl
  | flip => cases h

/-- No call changes the size of a frame, whether it stops or not. -/
theorem hasSize_performed (hc : c.screen.HasSize w h) (call : ScreenCall) :
    (c.performed call).screen.HasSize w h := by
  cases call with
  | draw command =>
    have hwidth := Canvas.width_exec c.screen.canvas command
    have hheight := Canvas.height_exec c.screen.canvas command
    exact ⟨⟨hwidth.trans hc.1.1, hheight.trans hc.1.2⟩, hc.2⟩
  | waitRefresh => exact hc
  | flip => exact ⟨hc.2, hc.1⟩

/-- No program changes the size of a frame. -/
theorem hasSize_foldl (hc : c.screen.HasSize w h) (program : List ScreenCall) :
    (program.foldl performed c).screen.HasSize w h :=
  List.foldlRecOn (motive := (·.screen.HasSize w h)) program performed hc
    fun _ hc call _ => hasSize_performed hc call

/-- The number of the frame to draw on counts the flips by twos. -/
theorem targetIndex_foldl (c : Console) (program : List ScreenCall) :
    (program.foldl performed c).screen.targetIndex.val =
      (c.screen.targetIndex.val + program.countP isFlip) % 2 := by
  induction program generalizing c with
  | nil => exact (Nat.mod_eq_of_lt c.screen.targetIndex.isLt).symm
  | cons call rest ih =>
    rw [List.foldl_cons, ih, List.countP_cons]
    cases call with
    | draw | waitRefresh => rfl
    | flip =>
      have hflip : c.shown.screen.targetIndex.val = (c.screen.targetIndex.val + 1) % 2 := by
        rw [show c.shown.screen.targetIndex = c.screen.targetIndex + 1 from rfl, Fin.val_add]
        rfl
      rw [show c.performed .flip = c.shown from rfl, hflip]
      simp only [isFlip, if_true]
      omega

/-- A program without a flip shows what was shown before. -/
theorem front_foldl_of_no_flip (hflip : ∀ call ∈ program, call.isFlip = false) (c : Console) :
    (program.foldl performed c).screen.front = c.screen.front :=
  List.foldlRecOn (motive := (·.screen.front = c.screen.front)) program performed rfl
    fun m hm call hcall => (front_performed (hflip call hcall) m).trans hm

/-- A program on a new screen completes exactly if its texts can be drawn and its frames counted.
Then it leaves both frames at the size of the screen, and the number of the frame to draw on is the
parity of the flips. Of the calls that can come next, and may stop, only a flip changes the frame
that is shown or the display's copy. A flip that can be counted shows exactly the frame drawn so
far, which the display copies and counts, and the frame to draw on next is black if it is the first
flip, and else the one that the flip before it handed to the display. Any other flip stops and
changes neither. -/
theorem double_buffering (c : Console) (hrun : c.board.Running) (w h : Int)
    (program : List ScreenCall) :
    let start : Console := { c with screen := .new w h }
    ((∃ s, Step.Completes perform program start s) ↔
      (∀ call ∈ program, call.Fits) ∧ c.board.RoomFor (program.countP isFlip)) ∧
    ∀ s, Step.Completes perform program start s →
      (∀ f ∈ [s.screen.target, s.screen.front],
        f.width = w.toNat ∧ f.height = h.toNat ∧ f.pixels.size = w.toNat * h.toNat) ∧
      s.screen.targetIndex.val = program.countP isFlip % 2 ∧
      (∀ call, call.isFlip = false →
        let next := ((perform call).start s).2
        next.screen.front = s.screen.front ∧ next.board.display = s.board.display ∧
          next.screen.HasSize w h) ∧
      (¬ s.board.RoomFor 1 → ∃ next, flip.start s = (.error (.panic (.overflow .add)), next) ∧
        next.screen = s.screen ∧ next.board.display = s.board.display) ∧
      (s.board.RoomFor 1 → ∃ next, flip.start s = (.ok (), next) ∧
        next.screen.front = s.screen.target ∧
        next.board.display = .capture s.screen.target (s.board.display.frame + 1) ∧
        next.board.display.frame.toNat = s.board.display.frame.toNat + 1 ∧
        ((∀ call ∈ program, call.isFlip = false) → next.screen.target = .filled w h .black) ∧
        ∀ before between, program = before ++ ScreenCall.flip :: between →
          (∀ call ∈ between, call.isFlip = false) →
          ∃ m m' count, Step.Completes perform before start m ∧ flip.start m = (.ok (), m') ∧
            next.screen.target = m.screen.target ∧
            m'.board.display = .capture next.screen.target count) := by
  intro start
  have hstart : start.board.Running := hrun
  refine ⟨exists_completes_iff hstart, fun s hs => ?_⟩
  have hrun' := running_of_completes hstart hs
  have hsize : s.screen.HasSize w h := by
    rw [((completes_iff hstart).1 hs).2.2]
    exact hasSize_foldl (Screen.hasSize_new w h) program
  refine ⟨fun f hf => ?_, ?_, fun call hcall => ?_, fun hfull => ?_, fun hroom => ?_⟩
  · have hf : f.HasSize w h := by
      rcases List.mem_cons.1 hf with rfl | hf
      · exact hsize.1
      · rw [List.mem_singleton.1 hf]
        exact hsize.2
    exact ⟨hf.1, hf.2, Frame.size_pixels_of_hasSize hf⟩
  · rw [((completes_iff hstart).1 hs).2.2, targetIndex_foldl]
    exact congrArg (· % 2) (Nat.zero_add _)
  · rw [start_perform_of_no_flip hrun' hcall]
    exact ⟨front_performed hcall s, display_performed hcall s, hasSize_performed hsize call⟩
  · exact ⟨_, start_flip_of_full hrun'.toReady hfull, rfl, rfl⟩
  · have hcount : s.shown.board.display.frame = s.board.display.frame + 1 := by
      rw [hrun'.frame_display]
      rfl
    refine ⟨s.shown, start_flip_of_running hrun' hroom, rfl, ?_, ?_, fun hflip => ?_, ?_⟩
    · rw [hrun'.frame_display]
      rfl
    · rw [hrun'.frame_display]
      exact toNat_presented_shown hroom
    · rw [((completes_iff hstart).1 hs).2.2]
      exact front_foldl_of_no_flip hflip start
    · rintro before between rfl hflip
      obtain ⟨m, hm, hrest⟩ := Step.completes_append_iff.1 hs
      obtain ⟨m', hm', hbetween⟩ := Step.completes_cons_iff.1 hrest
      have hrunm := running_of_completes hstart hm
      obtain ⟨-, -, rfl⟩ := (start_perform_iff hrunm).1 hm'
      -- The earlier flip showed this frame, and no call since has taken it from the display.
      have htarget : s.shown.screen.target = m.screen.target := by
        show s.screen.front = m.screen.target
        rw [((completes_iff (running_performed hrunm .flip)).1 hbetween).2.2]
        exact front_foldl_of_no_flip hflip m.shown
      refine ⟨m, _, m.board.presented + 1, hm, hm', htarget, ?_⟩
      rw [htarget]
      rfl

/-- The second flip brings the red frame back that the first one showed, without the point that was
drawn on the other frame in between. -/
theorem target_after_second_flip :
    let c := simulated (.start 0 []) 2 1
    c.board.Running ∧
      ∃ s next, Step.Completes perform [.draw (.setColor (.rgb 255 0 0)), .draw .clear, .flip,
          .draw (.pixel 0 0), .waitRefresh] c s ∧
        flip.start s = (.ok (), next) ∧
        next.screen.target.pixels = #[.rgb 255 0 0, .rgb 255 0 0] := by
  intro c
  have hrun : c.board.Running := Board.running_simulated (.start 0 [])
  obtain ⟨hcompletes, hshown⟩ := double_buffering c hrun 2 1
    [.draw (.setColor (.rgb 255 0 0)), .draw .clear, .flip, .draw (.pixel 0 0), .waitRefresh]
  obtain ⟨s, hs⟩ := hcompletes.2 ⟨by simp [ScreenCall.Fits], by decide⟩
  have hroom : s.board.RoomFor 1 := by
    rw [((completes_iff hrun).1 hs).2.2]
    decide
  obtain ⟨-, -, -, -, hflip⟩ := hshown s hs
  obtain ⟨next, hnext, -, -, -, -, hback⟩ := hflip hroom
  obtain ⟨m, -, -, hm, -, htarget, -⟩ := hback [.draw (.setColor (.rgb 255 0 0)), .draw .clear]
    [.draw (.pixel 0 0), .waitRefresh] rfl (by simp [isFlip])
  refine ⟨hrun, s, next, hs, hnext, ?_⟩
  rw [htarget, ((completes_iff hrun).1 hm).2.2]
  decide

end Console

end Handheld
