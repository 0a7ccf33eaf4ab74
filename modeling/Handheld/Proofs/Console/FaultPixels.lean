import Handheld.Proofs.Canvas.Writing
import Handheld.Proofs.Console.FaultScreen
import Handheld.Proofs.Text.LineCount

/-!
# The pixels of the fault screen

The fault screen is white where its text has ink and of the background elsewhere. The text is broken
to the width within the margins, so that from a width of twelve columns on, which leaves room for a
character, no ink comes into the margin on the right. It is shown if its text can be drawn, the
refresh comes and the simulator can count one more frame.

* `get?_faultScreen`: the color of every point.
* `get?_faultScreen_of_margin`: the margins are left blank.
* `faultFits_of_length_lt`, `not_faultFits_replicate_newline`: which texts can be drawn.
* `exists_start_showFault`, `exists_start_showFault_of_not_canShow`: what showing the fault screen
  does on any platform, and what it leaves if it stops.
* `fault_screen_is_readable`: all of it for a screen in any state.
-/

namespace Handheld.Console

open Text (mask)

variable {w h : Nat} {message : String} {x y : Int}

/-! ## One frame -/

/-- The text of the fault screen, as offsets of its points from its corner. -/
def faultInk (w : Nat) (message : String) : Set (Int × Int) :=
  mask message.toList (some (w - 2 * faultMargin))

instance (w : Nat) (message : String) : DecidablePred (· ∈ faultInk w message) :=
  inferInstanceAs (DecidablePred (· ∈ mask message.toList (some (w - 2 * faultMargin))))

theorem width_faultScreen (w h : Nat) (message : String) : (faultScreen w h message).width = w :=
  (Canvas.width_plot ..).trans (Int.toNat_natCast w)

theorem height_faultScreen (w h : Nat) (message : String) :
    (faultScreen w h message).height = h :=
  (Canvas.height_plot ..).trans (Int.toNat_natCast h)

/-- The fault screen is white where the text has ink, and of the background elsewhere. -/
theorem get?_faultScreen (hin : (faultScreen w h message).Contains x y) :
    (faultScreen w h message).get? x y =
      some (if (x - faultMargin, y - faultMargin) ∈ faultInk w message then .white
        else faultBackground) := by
  rw [Frame.Contains, width_faultScreen, height_faultScreen] at hin
  -- The text is drawn by a copying pen on a frame that has been cleared.
  let cleared : Canvas := ⟨(Frame.filled w h .black).fill faultBackground, ⟨.white, .copy⟩⟩
  have hcleared : cleared.get? x y = some faultBackground := by
    rw [Canvas.get?, Frame.get?_fill]
    exact if_pos hin
  have htext : (faultScreen w h message).get? x y =
      (cleared.withText message.toList faultMargin faultMargin
        (some (w - 2 * faultMargin))).get? x y := rfl
  rw [htext, Canvas.get?_withText, hcleared]
  show (if (x - faultMargin, y - faultMargin) ∈ faultInk w message then some Color.white
    else some faultBackground) = _
  split <;> rfl

/-- From a width of twelve columns on no ink comes into the margins. -/
theorem get?_faultScreen_of_margin (hw : 12 ≤ w) (hin : (faultScreen w h message).Contains x y)
    (hmargin : y < faultMargin ∨ x < faultMargin ∨ w - faultMargin ≤ x) :
    (faultScreen w h message).get? x y = some faultBackground := by
  have hwrap : (6 : Int) ≤ w - 2 * faultMargin := by
    unfold faultMargin
    omega
  -- The ink lies within the extent of the text, which is no wider than it was broken to.
  have hout : (x - faultMargin, y - faultMargin) ∉ faultInk w message := by
    intro hink
    have hwidth := Text.width_extent_le message.toList (w - 2 * faultMargin)
    obtain ⟨hcolumn, hrow⟩ := Text.lt_extent_of_mem_mask hink
    omega
  rw [get?_faultScreen hin, if_neg hout]

/-! ## Any platform -/

/-- No text of fewer characters than the most lines that can be drawn has too many lines. -/
theorem faultFits_of_length_lt (h : message.toList.length < Text.lineLimit) (w : Nat) :
    FaultFits w message :=
  Canvas.drawable_of_length_lt h _

/-- The bound is sharp: a text of so many newlines has one line too many at every width. -/
theorem not_faultFits_replicate_newline {n : Nat} (hn : Text.lineLimit ≤ n) (w : Nat) :
    ¬ FaultFits w (String.ofList (List.replicate n '\n')) := by
  have hlength : ∀ n, (Text.lines (List.replicate n '\n') none).length = n + 1 := by
    intro n
    induction n with
    | zero => rfl
    | succ n ih =>
      rw [List.replicate_succ, Text.lines, Text.pieces_cons_self, List.length_cons]
      exact congrArg (· + 1) ih
  have hlines := Text.length_lines_none_le (List.replicate n '\n') (w - 2 * faultMargin)
  rw [hlength] at hlines
  unfold FaultFits Text.Drawable
  rw [String.toList_ofList]
  omega

/-- The fault screen can be shown with the text. -/
structure CanShow (c : Console) (message : String) : Prop where
  /-- There is a platform to ask. -/
  platform : c.board.platform.isSome
  /-- The text can be drawn. -/
  fits : FaultFits c.screen.width message
  /-- The refresh comes. -/
  ends : c.board.waitEnds = true
  /-- The simulator can count one more frame. -/
  room : c.board.simulator.isSome → c.board.RoomFor 1

variable {c : Console}

/-- Where it can be shown, the fault screen is shown, and the simulator keeps a copy of it. -/
theorem exists_start_showFault (h : c.CanShow message) :
    ∃ after, (showFault message).start c = (.ok (), after) ∧
      after.screen = (c.painted message).screen.flipped ∧
      (c.board.simulator.isSome → after.board.display =
        .capture (c.painted message).screen.target (c.board.presented + 1)) := by
  obtain ⟨p, hp⟩ := Option.isSome_iff_exists.1 h.platform
  have hwait : waitRefresh.start (c.painted message) = (.ok (), (c.painted message).waited) := by
    rw [start_waitRefresh, show (c.painted message).board.platform = some p from hp]
    exact if_pos h.ends
  rw [showFault, Step.start_bind_of_ok (start_draw_paintFault h.fits), Step.start_bind_of_ok hwait,
    start_flip, show (c.painted message).waited.board.platform = some p from hp]
  by_cases hsimulator : c.board.simulator.isSome
  · have hroom : (c.painted message).waited.board.presented.toNat + 1 < UInt64.size :=
      h.room hsimulator
    have hsimulator' : (c.painted message).waited.board.simulator.isSome := hsimulator
    simp only [if_pos hsimulator', if_pos hroom]
    exact ⟨_, rfl, rfl, fun _ => rfl⟩
  · have hsimulator' : ¬ (c.painted message).waited.board.simulator.isSome := hsimulator
    simp only [if_neg hsimulator']
    exact ⟨_, rfl, rfl, fun h => absurd h hsimulator⟩

/-- Where it cannot be shown, the core stops, and the display and the frame that is shown are as
before. -/
theorem exists_start_showFault_of_not_canShow (h : ¬ c.CanShow message) :
    ∃ stop after, (showFault message).start c = (.error stop, after) ∧
      after.board.display = c.board.display ∧ after.screen.front = c.screen.front := by
  by_cases hfits : FaultFits c.screen.width message
  · rw [showFault, Step.start_bind_of_ok (start_draw_paintFault hfits), Step.start_bind,
      start_waitRefresh]
    cases hplatform : (c.painted message).board.platform with
    | none => exact ⟨_, _, rfl, rfl, rfl⟩
    | some p =>
      by_cases hends : (c.painted message).board.waitEnds = true
      -- What is left to fail is the count of the frame.
      · have hfull : c.board.simulator.isSome = true ∧ ¬ c.board.RoomFor 1 := by
          rw [← Classical.not_imp]
          exact fun hroom => h ⟨Option.isSome_iff_exists.2 ⟨p, hplatform⟩, hfits, hends, hroom⟩
        have hflip : flip.start (c.painted message).waited = _ :=
          start_flip_of_full ⟨Option.isSome_iff_exists.2 ⟨p, hplatform⟩, hfull.1⟩ hfull.2
        simp only [if_pos hends]
        exact ⟨_, _, hflip, rfl, rfl⟩
      · simp only [if_neg hends]
        exact ⟨_, _, rfl, rfl, rfl⟩
  · obtain ⟨canvas, hstop⟩ := exists_start_showFault_of_not_fits hfits
    exact ⟨_, _, hstop, rfl, rfl⟩

/-- On any platform, and whatever was drawn and chosen before, showing the fault screen presents one
frame of the size of the screen. It is white where the text, broken to the width within the margins,
has ink, and of the background elsewhere. If there are twelve columns at least, the topmost three
rows and the outermost three columns on both sides are of the background. Every other screen of this
size shows the same frame for the text.

That holds where the fault screen can be shown. Where it cannot, the core that would show it stops,
and the display is left as it was. A text of too many lines, which are more than `Text.lineLimit`,
cannot be shown anywhere: the row of the last of them overflows. -/
theorem fault_screen_is_readable (c : Console) (message : String) :
    (c.CanShow message →
      ∃ after, (showFault message).start c = (.ok (), after) ∧
        let shown := after.screen.front
        let w := c.screen.width
        (shown.width = w ∧ shown.height = c.screen.height) ∧
          (c.board.simulator.isSome →
            after.board.display = .capture shown (c.board.presented + 1)) ∧
          (∀ x y, shown.Contains x y →
            shown.get? x y =
              some (if (x - 3, y - 3) ∈ faultInk w message then .white else faultBackground)) ∧
          (12 ≤ w → ∀ x y, shown.Contains x y → y < 3 ∨ x < 3 ∨ (w : Int) - 3 ≤ x →
            shown.get? x y = some faultBackground) ∧
          ∀ d : Console, d.CanShow message →
            d.screen.width = w → d.screen.height = c.screen.height →
            ∃ after', (showFault message).start d = (.ok (), after') ∧
              after'.screen.front = shown) ∧
      (¬ c.CanShow message →
        ∃ stop after, (showFault message).start c = (.error stop, after) ∧
          after.board.display = c.board.display ∧ after.screen.front = c.screen.front) ∧
      (¬ FaultFits c.screen.width message →
        ((showFault message).start c).1 = .error (.panic (.overflow .multiply))) ∧
      (message.toList.length < Text.lineLimit → FaultFits c.screen.width message) := by
  refine ⟨fun hshow => ?_, exists_start_showFault_of_not_canShow, fun hfits => ?_,
    fun hlength => faultFits_of_length_lt hlength _⟩
  · obtain ⟨after, hstart, hscreen, hdisplay⟩ := exists_start_showFault hshow
    have hshown : after.screen.front = faultScreen c.screen.width c.screen.height message := by
      rw [hscreen, front_painted]
    refine ⟨after, hstart, ?_⟩
    rw [hshown]
    refine ⟨⟨width_faultScreen .., height_faultScreen ..⟩, fun hsimulator => ?_,
      fun x y hin => get?_faultScreen hin,
      fun hw x y hin hmargin => get?_faultScreen_of_margin hw hin hmargin,
      fun d hd hwidth hheight => ?_⟩
    · rw [hdisplay hsimulator, ← front_painted]
      rfl
    · obtain ⟨after', hstart', hscreen', -⟩ := exists_start_showFault hd
      refine ⟨after', hstart', ?_⟩
      rw [hscreen', front_painted, hwidth, hheight]
  · obtain ⟨canvas, hstop⟩ := exists_start_showFault_of_not_fits hfits
    rw [hstop]

/-- The fault screen of twelve columns with a nearly transparent pen and a grey frame before it: the
first point of ink is white, the margin behind the character is of the background, and the frame is
that of a new screen. -/
theorem fault_screen_behind_grey_frame :
    let c : Console := { simulated (.start 0 []) 12 16 with
      screen := ⟨.filled 12 16 (.rgb 99 99 99), .filled 12 16 .white, 1, ⟨⟨0, 0, 0, 10⟩, .alpha⟩⟩ }
    c.CanShow "a" ∧
      ∃ after, (showFault "a").start c = (.ok (), after) ∧
        after.screen.front.get? 4 6 = some .white ∧
        after.screen.front.get? 9 6 = some faultBackground ∧
        after.screen.front =
          ((showFault "a").start (simulated (.start 0 []) 12 16)).2.screen.front := by
  intro c
  obtain ⟨hshows, -, -, hfits⟩ := fault_screen_is_readable c "a"
  have hshow : c.CanShow "a" := ⟨rfl, hfits (by decide), rfl, fun _ => by decide⟩
  obtain ⟨after, hstart, ⟨hwidth, hheight⟩, -, hpoint, hmargin, hsame⟩ := hshows hshow
  have hin : ∀ x y : Int, 0 ≤ x ∧ 0 ≤ y ∧ x < 12 ∧ y < 16 → after.screen.front.Contains x y := by
    intro x y h
    rw [Frame.Contains, hwidth, hheight]
    exact h
  obtain ⟨after', hstart', hfront⟩ := hsame (simulated (.start 0 []) 12 16)
    ⟨rfl, hfits (by decide), rfl, fun _ => by decide⟩ rfl rfl
  refine ⟨hshow, after, hstart, ?_, ?_, ?_⟩
  · exact (hpoint 4 6 (hin 4 6 (by decide))).trans (by decide +kernel)
  · exact hmargin (Nat.le_refl 12) 9 6 (hin 9 6 (by decide)) (.inr (.inr (by decide)))
  · rw [hstart', hfront]

end Handheld.Console
