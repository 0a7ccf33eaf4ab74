import Handheld.Measured
import Handheld.Proofs.Canvas.Writing

/-!
# What the bar of the numbers covers

After every draw of a measured application the numbers stand in a bar along the bottom edge. The
text of the numbers is a single line, which fits into the rows of the bar, and both are drawn by a
pen that copies. So the bar covers its own rows whatever was there, and nothing above them.

* `newline_not_mem_text`: the numbers are a single line.
* `start_drawBar`, `fst_start_drawBar`: drawing the bar gives the bar, and never stops.
* `get?_withBar`: the color of every point after the bar.
* `get?_withBar_of_covered`: in the rows of the bar it depends on the numbers and the size alone.
* `start_draw_app`: a draw of the application inside, followed by the bar.
* `bar_covers_bottom_rows_alone`: what a draw of a measured application shows.
-/

namespace Handheld

open Text (mask)

/-- The numbers are a single line. -/
theorem FrameStats.newline_not_mem_text (s : FrameStats) : '\n' ∉ s.text.toList := by
  have hnumber := Text.newline_not_mem_toString
  exact Text.newline_not_mem_append (Text.newline_not_mem_append (Text.newline_not_mem_append
    (Text.newline_not_mem_append (Text.newline_not_mem_append (hnumber s.frames.toNat) (by decide))
      (hnumber s.average.toNat)) (by decide)) (hnumber s.worst.toNat)) (by decide)

namespace Measured

/-! ## The bar -/

/-- The points of the bar's text on a canvas with a number of rows. -/
def barInk (stats : FrameStats) (height : Nat) : Set (Int × Int) :=
  {p | (p.1 - 3, p.2 - (height - barHeight + 1)) ∈ mask stats.text.toList none}

instance (stats : FrameStats) (height : Nat) : DecidablePred (· ∈ barInk stats height) := fun p =>
  inferInstanceAs
    (Decidable ((p.1 - 3, p.2 - (height - barHeight + 1)) ∈ mask stats.text.toList none))

/-- The bar on a canvas with a number of rows: white where the numbers have ink, and black
elsewhere. -/
def barColor (stats : FrameStats) (height : Nat) (x y : Int) : Color :=
  if (x, y) ∈ barInk stats height then .white else .black

variable {stats : FrameStats} {c : Canvas} {x y : Int}

/-- The numbers stay within the rows of the bar. -/
theorem rows_of_mem_barInk {height : Nat} (h : (x, y) ∈ barInk stats height) :
    height - barHeight < y ∧ y < height - 1 := by
  have hrow := Text.lt_cellHeight_of_mem_mask stats.newline_not_mem_text h
  unfold barHeight Text.cellHeight at *
  omega

/-- A canvas with the bar over its bottom rows. -/
def withBar (text : String) (c : Canvas) : Canvas :=
  (((c.setBlend .copy).setColor .black).rect 0 (c.height - barHeight) c.width barHeight
    |>.setColor .white).withText text.toList 3 (c.height - barHeight + 1) none

theorem width_withBar (text : String) (c : Canvas) : (withBar text c).width = c.width :=
  (Canvas.width_plot ..).trans (Canvas.width_rect ..)

theorem height_withBar (text : String) (c : Canvas) : (withBar text c).height = c.height :=
  (Canvas.height_plot ..).trans (Canvas.height_rect ..)

/-- The drawing of the bar never stops. -/
theorem fst_start_drawBar (stats : FrameStats) (c : Canvas) :
    ((drawBar stats.text).start c).1 = .ok () := by
  rw [drawBar, Step.start_bind_of_ok (Step.start_get c),
    Step.start_bind_of_ok (Step.start_modify _ c), Canvas.fst_start_write]
  exact if_pos (Canvas.drawable_of_newline_not_mem stats.newline_not_mem_text)

/-- On a canvas whose rows are counted by a signed word it gives the bar. -/
theorem start_drawBar (stats : FrameStats) {c : Canvas} (h : (c.height : Int) ≤ Word32.greatest) :
    (drawBar stats.text).start c = (.ok (), withBar stats.text c) := by
  have hrow : Word32.Fits (c.height - barHeight + 1) := by
    unfold Word32.Fits Word32.least barHeight
    omega
  rw [drawBar, Step.start_bind_of_ok (Step.start_get c),
    Step.start_bind_of_ok (Step.start_modify _ c)]
  exact Canvas.start_write_of_newline_not_mem _ stats.newline_not_mem_text 3 hrow

/-- The bar covers its rows, and leaves all points above them. -/
theorem get?_withBar (stats : FrameStats) (c : Canvas) (x y : Int) :
    (withBar stats.text c).get? x y = (c.get? x y).map fun under =>
      if y < c.height - barHeight then under else barColor stats c.height x y := by
  let ground : Canvas :=
    ((c.setBlend .copy).setColor .black).rect 0 (c.height - barHeight) c.width barHeight
  have hground : ground.get? x y =
      if 0 ≤ x ∧ x < 0 + (c.width : Int) ∧ (c.height : Int) - barHeight ≤ y ∧
          y < (c.height : Int) - barHeight + barHeight then
        (c.get? x y).map fun _ => .black
      else c.get? x y := Canvas.get?_rect ..
  have htext : (withBar stats.text c).get? x y =
      if (x, y) ∈ barInk stats c.height then (ground.get? x y).map fun _ => .white
      else ground.get? x y := Canvas.get?_withText ..
  rw [htext, hground]
  cases hcolor : c.get? x y with
  | none => simp
  | some under =>
    obtain ⟨hx, -, hwidth, hheight⟩ : c.frame.Contains x y :=
      Frame.isSome_get?_iff.1 (Option.isSome_iff_exists.2 ⟨under, hcolor⟩)
    have hcolumn : x < 0 + (c.width : Int) := by
      rw [Int.zero_add]
      exact hwidth
    -- Above the bar there is no ink of the numbers, and below nothing but ground and ink.
    by_cases habove : y < c.height - barHeight
    · have hink : (x, y) ∉ barInk stats c.height := fun h =>
        absurd (rows_of_mem_barInk h).1 (by omega)
      rw [if_neg hink, if_neg fun h => absurd h.2.2.1 (by omega), Option.map_some, if_pos habove]
    · have hrow : y < (c.height : Int) - barHeight + barHeight := by
        rw [Int.sub_add_cancel]
        exact hheight
      have hcovered := And.intro hx (And.intro hcolumn (And.intro (Int.not_lt.1 habove) hrow))
      rw [if_pos hcovered, Option.map_some, Option.map_some, Option.map_some, if_neg habove,
        barColor]
      split <;> rfl

/-- In the rows of the bar nothing of the canvas is left but its size. -/
theorem get?_withBar_of_covered (hy : (c.height : Int) - barHeight ≤ y) :
    (withBar stats.text c).get? x y =
      if c.frame.Contains x y then some (barColor stats c.height x y) else none := by
  have hbelow : ¬ y < (c.height : Int) - barHeight := Int.not_lt.2 hy
  rw [get?_withBar]
  simp only [if_neg hbelow]
  by_cases hin : c.frame.Contains x y
  · obtain ⟨under, hunder⟩ := Option.isSome_iff_exists.1 (Frame.isSome_get?_iff.2 hin)
    rw [Canvas.get?, hunder, Option.map_some, if_pos hin]
  · rw [Canvas.get?_eq_none_iff.2 hin, Option.map_none, if_neg hin]

/-! ## A draw -/

variable {σ : Type}

theorem start_drawStats (s : Scene (Measured σ)) :
    drawStats.start s =
      (.ok (), { s with canvas := ((drawBar s.app.stats.text).start s.canvas).2 }) := by
  rw [drawStats, Step.start_bind_of_ok (Step.start_get s), Scene.draw, Step.start_on,
    fst_start_drawBar]

/-- A draw of a measured application is one of the application inside, which cannot reach the
numbers, and then the bar unless that one stopped. -/
theorem start_draw_app (a : App σ) (b : Board) (tick : UInt32) (s : Scene (Measured σ)) :
    ((app a).draw b tick).start s =
      let outcome := ((a.draw b tick).start { s with app := s.app.inner }).1
      let inner := ((a.draw b tick).start { s with app := s.app.inner }).2
      (outcome, ⟨⟨⟨inner.app, s.app.stats⟩, inner.core1, inner.log⟩,
        match outcome with
        | .ok () => ((drawBar s.app.stats.text).start inner.canvas).2
        | .error _ => inner.canvas⟩) := by
  have hinside : ((inside a).draw b tick).start s =
      (((a.draw b tick).start { s with app := s.app.inner }).1,
        { ((a.draw b tick).start { s with app := s.app.inner }).2 with
          app := ⟨((a.draw b tick).start { s with app := s.app.inner }).2.app, s.app.stats⟩ }) :=
    rfl
  unfold app
  simp only
  rw [Step.start_bind, hinside]
  rcases (a.draw b tick).start { s with app := s.app.inner } with ⟨_ | _, inner⟩
  · rfl
  · exact start_drawStats _

/-- After a draw that does not stop there is the bar on what the application inside left. -/
theorem canvas_of_ok {a : App σ} {b : Board} {tick : UInt32} {s : Scene (Measured σ)}
    (h : ((a.draw b tick).start { s with app := s.app.inner }).1 = .ok ())
    (hheight : (((a.draw b tick).start { s with app := s.app.inner }).2.canvas.height : Int) ≤
      Word32.greatest) :
    (((app a).draw b tick).start s).2.canvas =
      withBar s.app.stats.text ((a.draw b tick).start { s with app := s.app.inner }).2.canvas := by
  rw [start_draw_app]
  simp only [h, start_drawBar s.app.stats hheight]

theorem canvas_of_error {a : App σ} {b : Board} {tick : UInt32} {s : Scene (Measured σ)}
    {stop : Stop} (h : ((a.draw b tick).start { s with app := s.app.inner }).1 = .error stop) :
    (((app a).draw b tick).start s).2.canvas =
      ((a.draw b tick).start { s with app := s.app.inner }).2.canvas := by
  rw [start_draw_app]
  simp only [h]

/-- A draw of a measured application ends as the draw of the application inside does, and adds
nothing but the bar. After a stop there is no bar. Otherwise, on a canvas whose rows are counted by a
signed word, every point above the lowest twelve rows is as the application inside left it, and in
these rows, which are all rows of a lower canvas, a point is white where the numbers have ink and
black elsewhere. So there every other application, whatever it draws and with whatever pen, shows
the same with the same numbers on a canvas of the same size. -/
theorem bar_covers_bottom_rows_alone (a : App σ) (b : Board) (tick : UInt32)
    (s : Scene (Measured σ)) :
    let outcome := ((a.draw b tick).start { s with app := s.app.inner }).1
    let inner := ((a.draw b tick).start { s with app := s.app.inner }).2
    let after := (((app a).draw b tick).start s).2
    let h := inner.canvas.height
    (((app a).draw b tick).start s).1 = outcome ∧
      after.app = ⟨inner.app, s.app.stats⟩ ∧ after.core1 = inner.core1 ∧ after.log = inner.log ∧
      (outcome ≠ .ok () → after.canvas = inner.canvas) ∧
      (outcome = .ok () → (h : Int) ≤ Word32.greatest →
        after.canvas.width = inner.canvas.width ∧ after.canvas.height = h ∧
        (∀ x y : Int, y < h - 12 → after.canvas.get? x y = inner.canvas.get? x y) ∧
        (∀ x y : Int, h - 12 ≤ y → inner.canvas.frame.Contains x y →
          after.canvas.get? x y =
            some (if (x, y) ∈ barInk s.app.stats h then .white else .black)) ∧
        ∀ (τ : Type) (a' : App τ) (b' : Board) (tick' : UInt32) (s' : Scene (Measured τ)),
          let inner' := ((a'.draw b' tick').start { s' with app := s'.app.inner }).2
          ((a'.draw b' tick').start { s' with app := s'.app.inner }).1 = .ok () →
          s'.app.stats = s.app.stats → inner'.canvas.width = inner.canvas.width →
          inner'.canvas.height = h → ∀ x y : Int, h - 12 ≤ y →
          (((app a').draw b' tick').start s').2.canvas.get? x y = after.canvas.get? x y) := by
  intro outcome inner after h
  have hdraw := start_draw_app a b tick s
  refine ⟨congrArg Prod.fst hdraw, congrArg (·.2.app) hdraw, congrArg (·.2.core1) hdraw,
    congrArg (·.2.log) hdraw, fun hstop => ?_, fun hok hgreatest => ?_⟩
  · cases houtcome : outcome with
    | ok => exact absurd houtcome hstop
    | error stop => exact canvas_of_error houtcome
  · have hafter : after.canvas = withBar s.app.stats.text inner.canvas :=
      canvas_of_ok hok hgreatest
    rw [hafter]
    refine ⟨width_withBar .., height_withBar .., fun x y hy => ?_, fun x y hy hin => ?_, ?_⟩
    · have habove : y < (inner.canvas.height : Int) - barHeight := hy
      rw [get?_withBar]
      simp only [if_pos habove, Option.map_id']
    · rw [get?_withBar_of_covered hy, if_pos hin]
      rfl
    · intro τ a' b' tick' s' inner' hok' hstats hwidth hheight x y hy
      have hy' : (inner'.canvas.height : Int) - barHeight ≤ y := by
        rw [hheight]
        exact hy
      have hgreatest' : (inner'.canvas.height : Int) ≤ Word32.greatest := by
        rw [hheight]
        exact hgreatest
      rw [canvas_of_ok hok' hgreatest', hstats, get?_withBar_of_covered hy',
        get?_withBar_of_covered hy, hheight]
      exact if_congr (Frame.contains_iff_of_size_eq hwidth hheight) rfl rfl

/-- A nearly transparent pen on a canvas of thirteen rows: the numbers and the ground beside them
are opaque, and the row above the bar is as it was drawn. -/
theorem bar_over_transparent_pen :
    let a : App Unit :=
      ⟨fun _ => pure (), fun _ _ => pure (), fun _ _ => Scene.draw <| modify fun c =>
        ((c.setBlend .alpha).setColor ⟨9, 9, 9, 10⟩).clear⟩
    let s : Scene (Measured Unit) := ⟨⟨.new (), .initial, #[]⟩, ⟨.filled 8 13 .white, .initial⟩⟩
    ((a.draw default 0).start { s with app := s.app.inner }).1 = .ok () ∧
      let c := (((app a).draw default 0).start s).2.canvas
      c.get? 5 0 = some ⟨9, 9, 9, 10⟩ ∧ c.get? 5 3 = some .white ∧ c.get? 4 3 = some .black := by
  intro a s
  obtain ⟨-, -, -, -, -, hbar⟩ := bar_covers_bottom_rows_alone a default 0 s
  obtain ⟨-, -, habove, hcovered, -⟩ := hbar rfl (by decide)
  refine ⟨rfl, (habove 5 0 (by decide)).trans (by decide +kernel), ?_, ?_⟩
  · exact (hcovered 5 3 (by decide) (by decide)).trans (by decide +kernel)
  · exact (hcovered 4 3 (by decide) (by decide)).trans (by decide +kernel)

end Measured

end Handheld
