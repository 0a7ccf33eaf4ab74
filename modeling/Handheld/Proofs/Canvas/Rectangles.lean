import Handheld.Proofs.Canvas.Dots
import Handheld.Proofs.Canvas.Rows

/-!
# Rectangles on a canvas

A rectangle puts each of its points on the canvas through the pen once, whether it is drawn row by
row or point by point.

* `foldl_pixel_eq_rect`: the points of the clipped rectangle, drawn in any order, give it.
* `rect_paints_each_point_once`: what rectangles and lines do, and that no drawing of them slips.
-/

namespace Handheld.Canvas

/-- The points of the clipped rectangle `[x, x + w) × [y, y + h)`. -/
def clippedPoints (c : Canvas) (x y w h : Int) : List (Int × Int) :=
  ((Rect.mk x y w.toNat h.toNat).clip c.width c.height).points

theorem mem_clippedPoints {c : Canvas} {x y w h px py : Int} :
    (px, py) ∈ c.clippedPoints x y w h ↔
      (x ≤ px ∧ px < x + w ∧ y ≤ py ∧ py < y + h) ∧
        0 ≤ px ∧ px < c.width ∧ 0 ≤ py ∧ py < c.height := by
  rw [clippedPoints, Rect.mem_points_clip, Rect.mem_points]
  simp only
  omega

/-- The points of the clipped rectangle, drawn one after the other in any order, give the
rectangle. -/
theorem foldl_pixel_eq_rect (c : Canvas) (x y w h : Int) {points : List (Int × Int)}
    (hpoints : points.Perm (c.clippedPoints x y w h)) :
    points.foldl (fun c p => c.pixel p.1 p.2) c = c.rect x y w h := by
  have hnodup : points.Nodup := hpoints.nodup_iff.2 (Rect.nodup_points _)
  rw [foldl_pixel_eq_plot]
  refine ext_get? rfl ((width_plot ..).trans (width_rect ..).symm)
    ((height_plot ..).trans (height_rect ..).symm) fun px py => ?_
  have hmem : (px, py) ∈ points ↔ _ := hpoints.mem_iff.trans mem_clippedPoints
  rw [get?_plot_of_nodup c c.pen.color hnodup, get?_rect]
  -- On the canvas a point is listed exactly if the rectangle holds it.
  refine ite_map_get?_congr c.pen.apply fun hx hxw hy hyh => ?_
  rw [hmem, and_iff_left ⟨hx, hxw, hy, hyh⟩]

/-- What drawing the rectangle `[x, x + w) × [y, y + h)` makes of a canvas. -/
structure Painted (before after : Canvas) (x y w h : Int) : Prop where
  /-- The pen stays. -/
  pen_eq : after.pen = before.pen
  /-- The size stays. -/
  size_eq : after.width = before.width ∧ after.height = before.height
  /-- A point of the rectangle goes through the pen, once. -/
  inside : ∀ px py, x ≤ px → px < x + w → y ≤ py → py < y + h →
    after.get? px py = (before.get? px py).map before.pen.apply
  /-- Every other point keeps its color. -/
  outside : ∀ px py, ¬ (x ≤ px ∧ px < x + w ∧ y ≤ py ∧ py < y + h) →
    after.get? px py = before.get? px py
  /-- It is what drawing the points of the clipped rectangle gives, in any order. -/
  point_by_point : ∀ points : List (Int × Int), points.Perm (before.clippedPoints x y w h) →
    points.foldl (fun c p => c.pixel p.1 p.2) before = after
  /-- It is what filling or changing the rows of the clipped rectangle in memory gives, and nothing
  stops that. -/
  row_by_row : before.rectByRows x y w h = .ok after.frame.pixels

theorem painted_rect {c : Canvas} (hframe : Frame.Fits c.width c.height) {x y w h : Int}
    (hx : Word32.Fits x) (hy : Word32.Fits y) (hw : Word32.Fits w) (hh : Word32.Fits h) :
    Painted c (c.rect x y w h) x y w h where
  pen_eq := pen_rect ..
  size_eq := ⟨width_rect .., height_rect ..⟩
  inside px py hx hxw hy hyh := by rw [get?_rect, if_pos ⟨hx, hxw, hy, hyh⟩]
  outside px py hout := by rw [get?_rect, if_neg hout]
  point_by_point _ hpoints := foldl_pixel_eq_rect c x y w h hpoints
  row_by_row := rectByRows_eq_ok hframe hx hy hw hh

/-- On every canvas that is in memory and for all signed 32-bit words, a rectangle puts each of its
points through the pen once and changes nothing else. So do the lines, which are rectangles with one
row or one column. Row by row, where a pen that stores fills without a look at what is there, and
point by point in any order the same canvas comes out. -/
theorem rect_paints_each_point_once (c : Canvas) (x y w h : Int)
    (hframe : Frame.Fits c.width c.height) (hx : Word32.Fits x) (hy : Word32.Fits y)
    (hw : Word32.Fits w) (hh : Word32.Fits h) :
    Painted c (c.rect x y w h) x y w h ∧ Painted c (c.hline x y w) x y w 1 ∧
      Painted c (c.vline x y h) x y 1 h := by
  have hone : Word32.Fits 1 := by decide
  exact ⟨painted_rect hframe hx hy hw hh, painted_rect hframe hx hy hw hone,
    painted_rect hframe hx hy hone hh⟩

/-- The greatest rectangle at the last point of a canvas reaches past every word, and half white
over black is drawn there and nowhere else. -/
theorem greatest_rect_paints_corner :
    let c : Canvas := ⟨.filled 4 4 .black, ⟨⟨255, 255, 255, 128⟩, .alpha⟩⟩
    let drawn := c.rect 3 3 Word32.greatest Word32.greatest
    Frame.Fits c.width c.height ∧ Word32.Fits 3 ∧ Word32.Fits Word32.greatest ∧
      drawn.get? 3 3 = some (.rgb 128 128 128) ∧ drawn.get? 2 3 = some .black ∧
      c.rectByRows 3 3 Word32.greatest Word32.greatest = .ok drawn.frame.pixels := by
  intro c drawn
  have hframe : Frame.Fits c.width c.height := by decide
  have hcorner : Word32.Fits 3 := by decide
  have hgreatest : Word32.Fits Word32.greatest := by decide
  obtain ⟨hrect, -, -⟩ := rect_paints_each_point_once c 3 3 Word32.greatest Word32.greatest hframe
    hcorner hcorner hgreatest hgreatest
  have hin := hrect.inside 3 3 (by decide) (by decide) (by decide) (by decide)
  have hout := hrect.outside 2 3 (by decide)
  exact ⟨hframe, hcorner, hgreatest, hin.trans (by decide), hout.trans (by decide),
    hrect.row_by_row⟩

end Handheld.Canvas
