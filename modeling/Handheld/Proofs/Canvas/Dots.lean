import Handheld.Canvas.Command
import Mathlib.Data.List.Nodup

/-!
# Single points

Drawings made of single points. If the points are different, each of them is drawn once and their
order does not matter.

* `Rect.points_eq_map`, `Rect.nodup_points`: a rectangle's points are found from their numbers, and
  none is listed twice.
* `get?_plot_of_not_mem`, `get?_plot_of_mem`: the color of every point after different points.
* `foldl_pixel_eq_plot`: one point after another is the list of them in the pen's color.
* `get?_plot_of_nodup`: different points drawn in one color are each drawn once.
-/

namespace Handheld

/-! ## The points of a rectangle -/

/-- The `i`-th point of a rectangle is in the column of the remainder by the number of columns and
in the row of the quotient. -/
theorem Rect.points_eq_map (r : Rect) :
    r.points = (List.range (r.w * r.h)).map fun i =>
      (r.x + (i % r.w : Nat), r.y + (i / r.w : Nat)) := by
  obtain ⟨x, y, w, h⟩ := r
  unfold points
  by_cases hw : w = 0
  · subst hw
    rw [if_pos rfl, Nat.zero_mul, List.range_zero, List.map_nil]
  rw [if_neg hw]
  simp only
  induction h with
  | zero => rfl
  | succ n ih =>
    rw [List.range_succ, List.flatMap_append, ih, List.flatMap_singleton, Nat.mul_succ,
      List.range_add, List.map_append, List.map_map]
    refine congrArg _ (List.map_congr_left fun i hi => ?_)
    -- The last row starts behind `n` full ones.
    have hi := List.mem_range.1 hi
    rw [Function.comp_apply, Nat.mul_comm w, Frame.cell_mod hi, Frame.cell_div hi]

/-- A rectangle lists each of its points once. -/
theorem Rect.nodup_points (r : Rect) : r.points.Nodup := by
  rw [points_eq_map]
  refine List.Nodup.map (fun i j hij => ?_) List.nodup_range
  -- Points in the same column and row have the same number.
  simp only [Prod.mk.injEq] at hij
  have hcolumn : i % r.w = j % r.w := by omega
  have hrow : i / r.w = j / r.w := by omega
  rw [← Nat.div_add_mod i r.w, ← Nat.div_add_mod j r.w, hcolumn, hrow]

/-- Where a dot is drawn. -/
def Dot.point (d : Dot) : Int × Int := (d.x, d.y)

namespace Canvas

variable {c : Canvas} {dots : List Dot} {px py : Int}

/-- Canvases of one size and pen are the same if they show the same color at every point. -/
theorem ext_get? {d : Canvas} (hpen : c.pen = d.pen) (hwidth : c.width = d.width)
    (hheight : c.height = d.height) (h : ∀ px py, c.get? px py = d.get? px py) : c = d := by
  have hframe : c.frame = d.frame := Frame.ext_get? hwidth hheight h
  cases c
  cases d
  exact congr (congrArg Canvas.mk hframe) hpen

theorem get?_eq_none_iff : c.get? px py = none ↔ ¬ c.frame.Contains px py := by
  rw [← Frame.isSome_get?_iff, Option.not_isSome_iff_eq_none]
  rfl

/-- Where a change of colors applies matters on the canvas only. -/
theorem ite_map_get?_congr {p q : Prop} [Decidable p] [Decidable q] (change : Color → Color)
    (h : 0 ≤ px → px < c.width → 0 ≤ py → py < c.height → (p ↔ q)) :
    (if p then (c.get? px py).map change else c.get? px py) =
      if q then (c.get? px py).map change else c.get? px py := by
  cases hcolor : c.get? px py with
  | none => simp only [Option.map_none, ite_self]
  | some color =>
    have hsome : (c.frame.get? px py).isSome = true :=
      Option.isSome_iff_exists.2 ⟨color, hcolor⟩
    obtain ⟨hx, hy, hxw, hyh⟩ := Frame.isSome_get?_iff.1 hsome
    exact if_congr (h hx hxw hy hyh) rfl rfl

/-! ## Different points -/

theorem get?_plot_of_not_mem (h : (px, py) ∉ dots.map Dot.point) :
    (c.plot dots).get? px py = c.get? px py := by
  induction dots generalizing c with
  | nil => rfl
  | cons d rest ih =>
    rw [List.map_cons, List.mem_cons, not_or] at h
    have hne : ¬ (px = d.x ∧ py = d.y) := fun heq => h.1 (Prod.ext heq.1 heq.2)
    rw [get?_plot_cons, ih h.2]
    exact (Frame.get?_paint ..).trans (if_neg hne)

/-- Of different points, each is drawn once in its own color. -/
theorem get?_plot_of_mem (hnodup : (dots.map Dot.point).Nodup) {d : Dot} (hd : d ∈ dots) :
    (c.plot dots).get? d.x d.y = (c.get? d.x d.y).map (Pen.apply ⟨d.color, c.pen.blend⟩) := by
  induction dots generalizing c with
  | nil => exact absurd hd List.not_mem_nil
  | cons first rest ih =>
    rw [List.map_cons, List.nodup_cons] at hnodup
    rw [get?_plot_cons]
    rcases List.mem_cons.1 hd with rfl | hrest
    -- No later point is drawn over the first one.
    · rw [get?_plot_of_not_mem hnodup.1]
      exact (Frame.get?_paint ..).trans (if_pos ⟨rfl, rfl⟩)
    · have hne : ¬ (d.x = first.x ∧ d.y = first.y) := fun heq =>
        hnodup.1 (List.mem_map.2 ⟨d, hrest, Prod.ext heq.1 heq.2⟩)
      rw [ih hnodup.2 hrest]
      exact congrArg _ ((Frame.get?_paint ..).trans (if_neg hne))

/-! ## Points in one color -/

theorem map_point_of_color (points : List (Int × Int)) (color : Color) :
    (points.map fun p => (⟨p.1, p.2, color⟩ : Dot)).map Dot.point = points := by
  rw [List.map_map]
  exact List.map_id _

/-- Different points drawn in one color are each drawn once. -/
theorem get?_plot_of_nodup (c : Canvas) (color : Color) {points : List (Int × Int)}
    (hnodup : points.Nodup) (px py : Int) :
    (c.plot (points.map fun p => ⟨p.1, p.2, color⟩)).get? px py =
      if (px, py) ∈ points then (c.get? px py).map (Pen.apply ⟨color, c.pen.blend⟩)
      else c.get? px py := by
  have hpoints := map_point_of_color points color
  by_cases hp : (px, py) ∈ points
  · rw [if_pos hp]
    have hdot : (⟨px, py, color⟩ : Dot) ∈ points.map fun p => ⟨p.1, p.2, color⟩ :=
      List.mem_map_of_mem hp
    exact get?_plot_of_mem (hpoints.symm ▸ hnodup) hdot
  · rw [if_neg hp, get?_plot_of_not_mem (hpoints.symm ▸ hp)]

/-- Points drawn one after the other are the list of them in the pen's color. -/
theorem foldl_pixel_eq_plot (c : Canvas) (points : List (Int × Int)) :
    points.foldl (fun c p => c.pixel p.1 p.2) c =
      c.plot (points.map fun p => ⟨p.1, p.2, c.pen.color⟩) := by
  induction points generalizing c with
  | nil => rfl
  | cons p rest ih => exact ih (c.pixel p.1 p.2)

end Canvas

end Handheld
