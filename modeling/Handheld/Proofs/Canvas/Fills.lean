import Handheld.Proofs.Canvas.Blocks
import Handheld.Proofs.Canvas.Rectangles

/-!
# Filling point by point

The fills of a rectangle hand its points over one by one, row by row, each with a color. They leave
the pixels that the operations with whole rows leave.

* `fillSolid_eq_plot`, `fillContiguous_eq_plot`: a fill is its points with their colors.
* `frame_fillSolid`: one color on all points is the rectangle in that color.
* `frame_fillContiguous`: a color for each point, stored, is the block of these colors.
* `frame_fillAll`: a color that leaves nothing of what was there is the canvas cleared.
* `fills_agree_with_rows`: all of it, and that no fill touches the pen.
-/

namespace Handheld

/-! ## Points with their colors -/

theorem Rect.length_points (r : Rect) : r.points.length = r.w * r.h := by
  rw [points_eq_map, List.length_map, List.length_range]

theorem Rect.getElem?_points {r : Rect} {i : Nat} (h : i < r.w * r.h) :
    r.points[i]? = some (r.x + (i % r.w : Nat), r.y + (i / r.w : Nat)) := by
  rw [points_eq_map, List.getElem?_map, List.getElem?_range h, Option.map_some]

/-- The points of a rectangle row by row, each with the next color, as long as both last. -/
def Rect.dots (r : Rect) (colors : List Color) : List Dot :=
  (r.points.zip colors).map fun p => ⟨p.1.1, p.1.2, p.2⟩

/-- The `i`-th point gets the `i`-th color, if there are both. -/
theorem Rect.getElem?_dots (r : Rect) (colors : List Color) (i : Nat) :
    (r.dots colors)[i]? =
      if i < r.w * r.h then
        colors[i]?.map fun color => ⟨r.x + (i % r.w : Nat), r.y + (i / r.w : Nat), color⟩
      else none := by
  rw [dots, List.getElem?_map]
  by_cases hi : i < r.w * r.h
  · rw [if_pos hi, List.zip, List.getElem?_zipWith, getElem?_points hi]
    cases colors[i]? with
    | none => rfl
    | some color => rfl
  · have hnone : (r.points.zip colors)[i]? = none := by
      refine List.getElem?_eq_none ?_
      rw [List.length_zip, r.length_points]
      omega
    rw [if_neg hi, hnone, Option.map_none]

/-- With a color for every point, every point is drawn once. -/
theorem Rect.map_point_dots {r : Rect} {colors : List Color} (h : r.w * r.h ≤ colors.length) :
    (r.dots colors).map Dot.point = r.points := by
  rw [dots, List.map_map]
  exact List.map_fst_zip (r.length_points ▸ h)

/-- The point in a column and a row of the rectangle gets the color of that place. -/
theorem Rect.mem_dots {r : Rect} {colors : List Color} {right down : Nat} {color : Color}
    (hright : right < r.w) (hdown : down < r.h)
    (hcolor : colors[down * r.w + right]? = some color) :
    (⟨r.x + right, r.y + down, color⟩ : Dot) ∈ r.dots colors := by
  have hplace : down * r.w + right < r.w * r.h := Frame.cell_lt hright hdown
  refine List.mem_of_getElem? (i := down * r.w + right) ?_
  rw [getElem?_dots, if_pos hplace, hcolor, Option.map_some, Frame.cell_mod hright,
    Frame.cell_div hright]

/-- With one color for all, the dots are the points in that color. -/
theorem Rect.dots_replicate (r : Rect) (color : Color) :
    r.dots (List.replicate (r.w * r.h) color) = r.points.map fun p => ⟨p.1, p.2, color⟩ := by
  refine List.ext_getElem? fun i => ?_
  rw [getElem?_dots, List.getElem?_replicate, List.getElem?_map]
  by_cases hi : i < r.w * r.h
  · rw [if_pos hi, if_pos hi, getElem?_points hi, Option.map_some, Option.map_some]
  · rw [if_neg hi, List.getElem?_eq_none (by rw [r.length_points]; omega), Option.map_none]

namespace Canvas

variable {c : Canvas} {r : Rect} {colors : List Color}

/-! ## Fills are single points -/

/-- A fill in one color is all points of the rectangle in it, on the canvas or not. -/
theorem fillSolid_eq_plot (c : Canvas) (r : Rect) (color : Color) :
    c.fillSolid r color = c.plot (r.dots (List.replicate (r.w * r.h) color)) := by
  rw [r.dots_replicate]
  refine ext_get? rfl ((width_plot ..).trans (width_plot ..).symm)
    ((height_plot ..).trans (height_plot ..).symm) fun px py => ?_
  rw [fillSolid, get?_plot_of_nodup c color (Rect.nodup_points _),
    get?_plot_of_nodup c color (Rect.nodup_points _)]
  -- On the canvas the clipped rectangle has the same points.
  refine ite_map_get?_congr _ fun hx hxw hy hyh => ?_
  rw [Rect.mem_points_clip, and_iff_left ⟨hx, hxw, hy, hyh⟩]

theorem fillContiguous_eq_plot (c : Canvas) (r : Rect) (colors : List Color) :
    c.fillContiguous r colors = c.plot (r.dots colors) := by
  refine congrArg c.plot (List.ext_getElem? fun i => ?_)
  rw [Rect.getElem?_dots, List.getElem?_mapIdx, List.getElem?_take]
  split
  · rfl
  · rfl

/-! ## Fills and rows -/

/-- Drawn point by point or row by row, a rectangle in one color leaves the same pixels. -/
theorem frame_fillSolid (c : Canvas) (r : Rect) (color : Color) :
    (c.fillSolid r color).frame = ((c.setColor color).rect r.x r.y r.w r.h).frame := by
  rw [← foldl_pixel_eq_rect (c.setColor color) r.x r.y r.w r.h (List.Perm.refl _),
    foldl_pixel_eq_plot]
  rfl

/-- A fill with a color that leaves nothing of what was there leaves the pixels of a cleared
canvas. -/
theorem frame_fillAll (c : Canvas) (color : Color) (h : c.pen.blend = .copy ∨ color.a = 255) :
    (c.fillAll color).frame = (c.setColor color).clear.frame := by
  rw [fillAll, frame_fillSolid]
  refine Frame.ext_get? (width_rect ..) (height_rect ..) fun px py => ?_
  have hrect := get?_rect (c.setColor color) 0 0 c.width c.height px py
  have hclear := get?_clear (c.setColor color) px py
  have hcovered : (0 ≤ px ∧ px < 0 + (c.width : Int) ∧ 0 ≤ py ∧ py < 0 + (c.height : Int)) ↔
      c.frame.Contains px py := by
    rw [Int.zero_add, Int.zero_add]
    exact ⟨fun ⟨hx, hxw, hy, hyh⟩ => ⟨hx, hy, hxw, hyh⟩,
      fun ⟨hx, hy, hxw, hyh⟩ => ⟨hx, hxw, hy, hyh⟩⟩
  refine (hrect.trans ?_).trans hclear.symm
  by_cases hin : c.frame.Contains px py
  -- Every point of the canvas is drawn, and the pen leaves nothing of its color.
  · obtain ⟨old, hold⟩ := Option.isSome_iff_exists.1 (Frame.isSome_get?_iff.2 hin)
    have hcolor : (c.setColor color).get? px py = some old := hold
    have hstores : (c.setColor color).pen.stores = true := Pen.stores_iff.2 h
    rw [if_pos (hcovered.2 hin), hcolor, Option.map_some, Pen.apply_of_stores hstores]
    exact (if_pos hin).symm
  · rw [if_neg (hcovered.not.2 hin)]
    exact (get?_eq_none_iff.2 hin).trans (if_neg hin).symm

theorem blockRows_of_length {len w h : Nat} (hlen : len = w * h) (hw : 0 < w)
    (hh : Word32.Fits h) : blockRows len w h = h := by
  have hrows : len / (w : Int).toNat = h := by
    rw [Int.toNat_natCast, hlen, Nat.mul_div_cancel_left _ hw]
  rw [(blockRows_eq_min_iff len w h).2 (Or.inl (hrows ▸ hh.2)), hrows, Int.min_self]

/-- Stored point by point or copied row by row, a color for each point of a rectangle leaves the
same pixels. -/
theorem frame_fillContiguous (hblend : c.pen.blend = .copy) (hlength : colors.length = r.w * r.h)
    (hh : Word32.Fits r.h) :
    (c.fillContiguous r colors).frame = (c.blit colors.toArray r.w r.h r.x r.y).frame := by
  have hpoints := Rect.map_point_dots (Nat.le_of_eq hlength.symm)
  rw [fillContiguous_eq_plot]
  refine Frame.ext_get? ((width_plot ..).trans (width_blit ..).symm)
    ((height_plot ..).trans (height_blit ..).symm) fun px py => ?_
  show (c.plot _).get? px py = (c.blit _ _ _ _ _).get? px py
  by_cases hin : r.x ≤ px ∧ px < r.x + r.w ∧ r.y ≤ py ∧ py < r.y + r.h
  · obtain ⟨right, hright⟩ : ∃ right : Nat, px - r.x = right := Int.eq_ofNat_of_zero_le (by omega)
    obtain ⟨down, hdown⟩ : ∃ down : Nat, py - r.y = down := Int.eq_ofNat_of_zero_le (by omega)
    obtain rfl : px = r.x + right := by omega
    obtain rfl : py = r.y + down := by omega
    have hplace : down * r.w + right < colors.length :=
      hlength ▸ Frame.cell_lt (by omega) (by omega)
    have hcolor := List.getElem?_eq_getElem hplace
    have hdot := Rect.mem_dots (r := r) (by omega) (by omega) hcolor
    -- The point-wise path stores the dot's color, and the block has it at the dot's place.
    have hplot := get?_plot_of_mem (c := c) (hpoints.symm ▸ r.nodup_points) hdot
    have hrows : blockRows colors.toArray.size r.w r.h = r.h :=
      blockRows_of_length hlength (by omega) hh
    have hstored : ∀ old, colors.toArray.getD (down * r.w + right) old =
        colors[down * r.w + right] := by
      intro old
      rw [Array.getD_eq_getD_getElem?, List.getElem?_toArray, hcolor, Option.getD_some]
    rw [hplot, get?_blit c _ (by omega) (by omega), hrows, if_pos hin, hright, hdown, hblend,
      ← Int.natCast_mul, ← Int.natCast_add, Int.toNat_natCast]
    simp only [hstored]
    rfl
  -- Any other point is none of the dots, and no row of the block reaches it.
  · rw [get?_blit_of_outside c _ hin, get?_plot_of_not_mem]
    rw [hpoints, Rect.mem_points]
    exact hin

/-- The fills of a rectangle hand over its points row by row, each with its color, and leave the pen
alone. With one color for all they leave the pixels of the rectangle drawn in that color, whatever
the blend mode. With a color for each point, stored, they leave the pixels of the block copied, if
the number of rows is a signed 32-bit word. With one color on the whole canvas they leave the pixels
of the canvas cleared, if the color is stored or opaque. -/
theorem fills_agree_with_rows (c : Canvas) (r : Rect) (color : Color) (colors : List Color) :
    (c.fillSolid r color = c.plot (r.dots (List.replicate (r.w * r.h) color)) ∧
        c.fillContiguous r colors = c.plot (r.dots colors) ∧
        c.fillAll color = c.fillSolid ⟨0, 0, c.width, c.height⟩ color) ∧
      ((c.fillSolid r color).pen = c.pen ∧ (c.fillContiguous r colors).pen = c.pen ∧
        (c.fillAll color).pen = c.pen) ∧
      (c.fillSolid r color).frame = ((c.setColor color).rect r.x r.y r.w r.h).frame ∧
      (c.pen.blend = .copy → colors.length = r.w * r.h → Word32.Fits r.h →
        (c.fillContiguous r colors).frame = (c.blit colors.toArray r.w r.h r.x r.y).frame) ∧
      (c.pen.blend = .copy ∨ color.a = 255 →
        (c.fillAll color).frame = (c.setColor color).clear.frame) :=
  ⟨⟨fillSolid_eq_plot c r color, fillContiguous_eq_plot c r colors, rfl⟩, ⟨rfl, rfl, rfl⟩,
    frame_fillSolid c r color, frame_fillContiguous, frame_fillAll c color⟩

/-- Four colors on a rectangle that starts above the canvas and reaches past its right edge. -/
theorem fills_of_clipped_square :
    let c : Canvas := ⟨.filled 3 3 .black, ⟨.white, .copy⟩⟩
    let colors : List Color := [.rgb 1 0 0, .rgb 2 0 0, .rgb 3 0 0, .rgb 4 0 0]
    (c.pen.blend = .copy ∧ colors.length = 2 * 2 ∧ Word32.Fits 2) ∧
      (c.fillContiguous ⟨2, -1, 2, 2⟩ colors).get? 2 0 = some (.rgb 3 0 0) ∧
      (c.fillContiguous ⟨2, -1, 2, 2⟩ colors).frame = (c.blit colors.toArray 2 2 2 (-1)).frame ∧
      (c.fillAll .transparent).frame = (c.setColor .transparent).clear.frame := by
  intro c colors
  obtain ⟨-, -, -, hblock, hclear⟩ :=
    fills_agree_with_rows c ⟨2, -1, 2, 2⟩ .transparent colors
  exact ⟨⟨rfl, rfl, by decide⟩, by decide, hblock rfl rfl (by decide), hclear (Or.inl rfl)⟩

end Canvas

end Handheld
