import Handheld.Demo.DualCore
import Handheld.Proofs.Canvas.Writing

/-!
# What a draw of the pictures shows

While nobody holds the lock, a draw of the two-core demo goes through and leaves the shared picture
alone. On a canvas of any size it shows that picture, cut off at the edges of the canvas, and the
status in the rows below, so that neither covers the other.

* `start_draw_of_free`: a draw on a free lock does not stop, and what it leaves.
* `start_draw_amid_turns`: turns during a draw amount to turns before and after it.
* `Shows`: the color of every point of a canvas with a picture and some text.
* `shows_drawn_of_blank`, `shows_drawn_of_whole`: what a draw shows without and with a picture.
-/

namespace Handheld.Demo.DualCore

open Text (mask)

/-! ## The steps of a draw -/

/-- The canvas as a draw finds it, made black. -/
def cleared (c : Canvas) : Canvas := ((c.setBlend .copy).setColor .black).clear

/-- The status below the picture. -/
def withStatus (lastSeen : Option UInt64) (c : Canvas) : Canvas :=
  (c.setColor (.rgb 255 0 0)).withText (status lastSeen).toList 3 (Picture.height + 6) none

theorem newline_not_mem_status (lastSeen : Option UInt64) :
    '\n' ∉ (status lastSeen).toList := by
  cases lastSeen with
  | none => decide
  | some number =>
    exact Text.newline_not_mem_append (by decide) (Text.newline_not_mem_toString number.toNat)

/-- The status is a single line, whose drawing does not stop. -/
theorem start_drawStatus (lastSeen : Option UInt64) (c : Canvas) :
    (drawStatus lastSeen).start c = (.ok (), withStatus lastSeen c) := by
  rw [drawStatus, Step.start_bind_of_ok (Step.start_modify _ c)]
  exact Canvas.start_write_of_newline_not_mem _ (newline_not_mem_status lastSeen) 3 (by decide)

/-- What a draw leaves when nobody holds the lock. -/
def drawn (s : Backstage DualCore) (c : Canvas) : Scene DualCore :=
  let (canvas, lastSeen) := drawPicture s.core1.picture.data s.app.lastSeen (cleared c)
  { app := ⟨lastSeen⟩
    core1 := { s.core1 with picture := .new s.core1.picture.data }
    log := s.log
    canvas := withStatus lastSeen canvas }

theorem start_showPicture_of_free {s : Scene DualCore} (h : s.core1.picture.token = .free)
    (me : CoreId) :
    (showPicture me).start s =
      (.ok (), { s with
        canvas := (drawPicture s.core1.picture.data s.app.lastSeen s.canvas).1
        app := ⟨(drawPicture s.core1.picture.data s.app.lastSeen s.canvas).2⟩
        core1 := { s.core1 with picture := .new s.core1.picture.data } }) := by
  -- A free lock has no owner, so it is no re-entry whatever number the caller has.
  have hlock : s.core1.picture.lock me =
      .ok (some { s.core1.picture with token := .heldBy me, guarded := true }) := by
    simp [Mutex.lock, Token.enter, h, Token.free, Except.map]
  rw [showPicture, Step.start_bind, Step.start_get]
  simp only [hlock]
  rw [Step.start_bind, Step.start_set]
  -- The caller took the lock itself, so it may release it.
  simp only [Mutex.unlock, Token.exit, Token.heldBy, if_true]
  rfl

theorem start_draw_drawStatus (s : Scene DualCore) :
    (Scene.draw (drawStatus s.app.lastSeen)).start s =
      (.ok (), { s with canvas := withStatus s.app.lastSeen s.canvas }) := by
  rw [Scene.draw, Step.start_on, start_drawStatus]

/-- A draw does not stop, whatever core number the board tells. -/
theorem start_draw_of_free {s : Backstage DualCore} (h : s.core1.picture.token = .free)
    (b : Board) (tick : UInt32) (c : Canvas) :
    (app.draw b tick).start ⟨s, c⟩ = (.ok (), drawn s c) := by
  unfold app
  simp only
  rw [Step.start_bind_of_ok (Scene.start_draw_modify _ _), Step.start_bind_of_ok
    (start_showPicture_of_free h _), Step.start_bind_of_ok (Step.start_get _)]
  exact start_draw_drawStatus _

/-- Core 1 takes some turns. -/
def takeTurns (n : Nat) : Step (Scene DualCore) Unit :=
  modify fun s => { s with core1 := s.core1.run n }

/-- Turns that core 1 takes while a draw is under way, outside its lock, might as well come before
and after the draw. -/
theorem start_draw_amid_turns {s : Backstage DualCore} {i : Nat}
    (h : (s.core1.run i).picture.token = .free) (b : Board) (j : Nat) (c : Canvas) :
    (do
      Scene.draw (modify cleared)
      takeTurns i
      showPicture b.coreNumber
      takeTurns j
      let s ← get
      Scene.draw (drawStatus s.app.lastSeen) : Step (Scene DualCore) Unit).start ⟨s, c⟩ =
        (takeTurns j).start (drawn { s with core1 := s.core1.run i } c) := by
  unfold takeTurns
  rw [Step.start_bind_of_ok (Scene.start_draw_modify _ _),
    Step.start_bind_of_ok (Step.start_modify _ _),
    Step.start_bind_of_ok (start_showPicture_of_free h _),
    Step.start_bind_of_ok (Step.start_modify _ _), Step.start_bind_of_ok (Step.start_get _)]
  exact start_draw_drawStatus _

/-! ## The points of a canvas -/

/-- The points of the line below the picture. -/
def lineInk (line : String) : Set (Int × Int) :=
  {p | (p.1 - 3, p.2 - (Picture.height + 6)) ∈ mask line.toList none}

instance (line : String) : DecidablePred (· ∈ lineInk line) := fun p =>
  inferInstanceAs (Decidable ((p.1 - 3, p.2 - (Picture.height + 6)) ∈ mask line.toList none))

/-- The point is in the columns and rows of a picture on a canvas of this width. -/
def InPicture (width : Nat) (x y : Int) : Prop :=
  left width ≤ x ∧ x < left width + Picture.width ∧ 0 ≤ y ∧ y < Picture.height

instance (width : Nat) (x y : Int) : Decidable (InPicture width x y) := by
  unfold InPicture
  infer_instance

/-- A canvas shows a picture if there is one, some points in red, and nothing else. -/
structure Shows (picture : Option Picture) (ink : Set (Int × Int)) (c : Canvas) : Prop where
  /-- The picture is complete, as far as the canvas has room for it. -/
  pixel : ∀ p, picture = some p → ∀ x y : Nat, x < Picture.width → y < Picture.height →
    c.frame.Contains (left c.width + x) y →
      c.get? (left c.width + x) y = p.pixels[y * Picture.width + x]?
  red : ∀ x y, (x, y) ∈ ink → c.frame.Contains x y → c.get? x y = some (.rgb 255 0 0)
  black : ∀ x y, (x, y) ∉ ink → ¬ (picture.isSome ∧ InPicture c.width x y) →
    c.frame.Contains x y → c.get? x y = some .black

theorem shows_cleared (c : Canvas) : Shows none ∅ (cleared c) where
  pixel _ hp := by cases hp
  red _ _ hink := hink.elim
  black x y _ _ hin := (Canvas.get?_clear ..).trans (if_pos hin)

/-- A whole picture replaces the points in its columns and rows. -/
theorem get?_blit_whole (c : Canvas) {pixels : Array Color} (hsize : pixels.size = Picture.size)
    (x y : Int) :
    (c.blit pixels Picture.width Picture.height (left c.width) 0).get? x y =
      if InPicture c.width x y then
        (c.get? x y).map fun old =>
          pixels.getD (y * Picture.width + (x - left c.width)).toNat old
      else c.get? x y := by
  -- The source fills all rows of the block.
  have hrows : Canvas.blockRows pixels.size Picture.width Picture.height = Picture.height := by
    rw [hsize]
    rfl
  rw [Canvas.get?_blit c pixels (by decide) (by decide), hrows, Int.zero_add, Int.sub_zero]
  rfl

/-- Relative to the picture's corner a point is found in the picture's own rows. -/
theorem some_getD_cell {pixels : Array Color} (hsize : pixels.size = Picture.size) {x y : Nat}
    (hx : x < Picture.width) (hy : y < Picture.height) (old : Color) (column : Int) :
    some (pixels.getD (y * Picture.width + (column + x - column) : Int).toNat old) =
      pixels[y * Picture.width + x]? := by
  have hcell : (y * Picture.width + (column + x - column) : Int).toNat =
      y * Picture.width + x := by
    omega
  have hlt : y * Picture.width + x < pixels.size := by
    rw [hsize]
    exact Frame.cell_lt hx hy
  rw [hcell, Array.getD_eq_getD_getElem?, Array.getElem?_eq_getElem hlt, Option.getD_some]

/-- A whole picture on a black canvas. -/
theorem shows_blit {c : Canvas} (hblack : Shows none ∅ c) {picture : Picture}
    (hsize : picture.pixels.size = Picture.size) :
    Shows (some picture) ∅
      (c.blit picture.pixels Picture.width Picture.height (left c.width) 0) := by
  have hwidth := Canvas.width_blit c picture.pixels Picture.width Picture.height (left c.width) 0
  have hheight := Canvas.height_blit c picture.pixels Picture.width Picture.height (left c.width) 0
  refine ⟨fun p hp x y hx hy hin => ?_, fun _ _ hink => hink.elim, fun x y hink hout hin => ?_⟩
  · obtain rfl := Option.some.inj hp
    rw [hwidth, Frame.contains_iff_of_size_eq hwidth hheight] at hin
    have hpicture : InPicture c.width (left c.width + x) y := by
      unfold InPicture
      omega
    -- The block covers a black point of the canvas, which it replaces.
    obtain ⟨old, hold⟩ := Option.isSome_iff_exists.1 (Frame.isSome_get?_iff.2 hin)
    rw [hwidth, get?_blit_whole c hsize, if_pos hpicture, Canvas.get?, hold, Option.map_some]
    exact some_getD_cell hsize hx hy old _
  · rw [hwidth] at hout
    rw [Frame.contains_iff_of_size_eq hwidth hheight] at hin
    rw [get?_blit_whole c hsize, if_neg fun h => hout ⟨rfl, h⟩]
    exact hblack.black x y hink (fun h => absurd h.1 (by decide)) hin

/-- The status is written below the picture, and so nothing of the picture is lost. -/
theorem shows_withStatus {c : Canvas} {picture : Option Picture} (h : Shows picture ∅ c)
    (hcopy : c.pen.blend = .copy) (lastSeen : Option UInt64) :
    Shows picture (lineInk (status lastSeen)) (withStatus lastSeen c) := by
  have hwidth : (withStatus lastSeen c).width = c.width := Canvas.width_plot ..
  have hheight : (withStatus lastSeen c).height = c.height := Canvas.height_plot ..
  have hpoint : ∀ x y, (withStatus lastSeen c).get? x y =
      if (x, y) ∈ lineInk (status lastSeen) then
        (c.get? x y).map (Pen.apply ⟨.rgb 255 0 0, c.pen.blend⟩)
      else c.get? x y := fun x y => Canvas.get?_withText ..
  refine ⟨fun p hp x y hx hy hin => ?_, fun x y hink hin => ?_, fun x y hink hout hin => ?_⟩
  -- The ink starts six rows below the picture.
  · have habove : ((left c.width + x, (y : Int)) : Int × Int) ∉ lineInk (status lastSeen) := by
      intro hink
      have := (Text.lt_extent_of_mem_mask hink).2.1
      omega
    rw [hwidth, Frame.contains_iff_of_size_eq hwidth hheight] at hin
    rw [hwidth, hpoint, if_neg habove]
    exact h.pixel p hp x y hx hy hin
  · rw [Frame.contains_iff_of_size_eq hwidth hheight] at hin
    obtain ⟨old, hold⟩ := Option.isSome_iff_exists.1 (Frame.isSome_get?_iff.2 hin)
    rw [hpoint, if_pos hink, Canvas.get?, hold, Option.map_some, hcopy, Pen.apply_copy]
  · rw [hwidth] at hout
    rw [Frame.contains_iff_of_size_eq hwidth hheight] at hin
    rw [hpoint, if_neg hink]
    exact h.black x y id hout hin

/-- Before the first picture a draw shows the text alone. -/
theorem shows_drawn_of_blank {s : Backstage DualCore}
    (hblank : s.core1.picture.data.pixels = #[]) (hseen : s.app.lastSeen = none) (c : Canvas) :
    (drawn s c).app.lastSeen = none ∧
      Shows none (lineInk "waiting for core 1") (drawn s c).canvas := by
  have hsize : ¬ s.core1.picture.data.pixels.size = Picture.size := by
    rw [hblank]
    decide
  simp only [drawn, drawPicture, if_neg hsize, hseen]
  exact ⟨trivial, shows_withStatus (shows_cleared c) rfl none⟩

/-- A draw shows a whole picture with its number. -/
theorem shows_drawn_of_whole {s : Backstage DualCore}
    (hsize : s.core1.picture.data.pixels.size = Picture.size) (c : Canvas) :
    (drawn s c).app.lastSeen = some s.core1.picture.data.number ∧
      Shows (some s.core1.picture.data)
        (lineInk ("core 1 picture #" ++ toString s.core1.picture.data.number.toNat))
        (drawn s c).canvas := by
  simp only [drawn, drawPicture, if_pos hsize]
  refine ⟨trivial, shows_withStatus (shows_blit (shows_cleared c) hsize) ?_ (some _)⟩
  rw [Canvas.pen_blit]
  rfl

theorem width_drawPicture (picture : Picture) (lastSeen : Option UInt64) (c : Canvas) :
    (drawPicture picture lastSeen c).1.width = c.width := by
  unfold drawPicture
  split
  · exact Canvas.width_blit ..
  · rfl

theorem height_drawPicture (picture : Picture) (lastSeen : Option UInt64) (c : Canvas) :
    (drawPicture picture lastSeen c).1.height = c.height := by
  unfold drawPicture
  split
  · exact Canvas.height_blit ..
  · rfl

theorem width_drawn (s : Backstage DualCore) (c : Canvas) : (drawn s c).canvas.width = c.width :=
  (Canvas.width_plot ..).trans (width_drawPicture _ _ (cleared c))

theorem height_drawn (s : Backstage DualCore) (c : Canvas) :
    (drawn s c).canvas.height = c.height :=
  (Canvas.height_plot ..).trans (height_drawPicture _ _ (cleared c))

end Handheld.Demo.DualCore
