import Handheld.Frame.Region
import Handheld.Number.Checked
import Handheld.Pen

/-!
# The canvas

A canvas is a frame to draw on together with the pen. Every operation clips: what lies outside the
frame touches nothing. The main statements give the color of every point after an operation:

* `get?_clear`, `get?_pixel`, `get?_rect` and `get?_blit` for the native operations;
* `get?_plot_cons` for single pixels drawn through the blend mode, from which characters and the
  fills of a rectangle are made.
-/

namespace Handheld

/-- A rectangle of points with a size that is not negative. -/
structure Rect where
  /-- Leftmost column. -/
  x : Int
  /-- Topmost row. -/
  y : Int
  /-- Number of columns. -/
  w : Nat
  /-- Number of rows. -/
  h : Nat
deriving DecidableEq, Repr

/-- The points of a rectangle, row by row. Without a column there is no row either. -/
def Rect.points (r : Rect) : List (Int × Int) :=
  if r.w = 0 then []
  else
    (List.range r.h).flatMap fun j : Nat => (List.range r.w).map fun i : Nat => (r.x + i, r.y + j)

/-- A point is listed exactly if it lies in the rectangle. -/
theorem Rect.mem_points {r : Rect} {x y : Int} :
    (x, y) ∈ r.points ↔ r.x ≤ x ∧ x < r.x + r.w ∧ r.y ≤ y ∧ y < r.y + r.h := by
  unfold points
  split
  · simp
    omega
  · simp only [List.mem_flatMap, List.mem_map, List.mem_range, Prod.mk.injEq]
    constructor
    -- A listed point has a row and a column of the rectangle.
    · rintro ⟨j, hj, i, hi, rfl, rfl⟩
      omega
    · intro h
      exact ⟨(y - r.y).toNat, by omega, (x - r.x).toNat, by omega, by omega, by omega⟩

/-- The part of a rectangle that lies in `[0, width) × [0, height)`. -/
def Rect.clip (r : Rect) (width height : Nat) : Rect :=
  let columns := Span.clip r.x r.w width
  let rows := Span.clip r.y r.h height
  ⟨columns.start, rows.start, columns.count, rows.count⟩

/-- Clipping keeps exactly the points within the limits. -/
theorem Rect.mem_points_clip {r : Rect} {width height : Nat} {x y : Int} :
    (x, y) ∈ (r.clip width height).points ↔
      (x, y) ∈ r.points ∧ 0 ≤ x ∧ x < width ∧ 0 ≤ y ∧ y < height := by
  simp only [mem_points, clip, Span.clip]
  omega

/-- A point and the color to draw there. -/
structure Dot where
  /-- Column of the point. -/
  x : Int
  /-- Row of the point. -/
  y : Int
  /-- The color to draw. -/
  color : Color
deriving DecidableEq, Repr

/-- A frame to draw on, with the pen. -/
structure Canvas where
  /-- The pixels drawn so far. -/
  frame : Frame
  /-- The color and blend mode of the next operation. -/
  pen : Pen
deriving DecidableEq, Inhabited

namespace Canvas

/-- Columns of the canvas. -/
def width (c : Canvas) : Nat := c.frame.width

/-- Rows of the canvas. -/
def height (c : Canvas) : Nat := c.frame.height

/-- The color of a point, `none` outside the canvas. -/
def get? (c : Canvas) (x y : Int) : Option Color := c.frame.get? x y

/-- Choose the pen's color and keep its blend mode. -/
def setColor (c : Canvas) (color : Color) : Canvas := { c with pen := { c.pen with color } }

/-- Choose the pen's blend mode and keep its color. -/
def setBlend (c : Canvas) (blend : Blend) : Canvas := { c with pen := { c.pen with blend } }

/-- Set every pixel to the pen's color, whatever the blend mode. -/
def clear (c : Canvas) : Canvas := { c with frame := c.frame.fill c.pen.color }

/-- Draw one point. -/
def pixel (c : Canvas) (x y : Int) : Canvas := { c with frame := c.frame.paint x y c.pen.apply }

/-- Draw the filled rectangle `[x, x + w) × [y, y + h)`. -/
def rect (c : Canvas) (x y w h : Int) : Canvas :=
  { c with frame := c.frame.updateRect x y w h fun _ _ => c.pen.apply }

/-- Draw `len` points to the right. -/
def hline (c : Canvas) (x y len : Int) : Canvas := c.rect x y len 1

/-- Draw `len` points downwards. -/
def vline (c : Canvas) (x y len : Int) : Canvas := c.rect x y 1 len

/-- Draw single points in their own colors, one after the other, through the pen's blend mode. -/
def plot (c : Canvas) (dots : List Dot) : Canvas :=
  { c with
    frame := dots.foldl (fun f d => f.paint d.x d.y (Pen.apply ⟨d.color, c.pen.blend⟩)) c.frame }

/-- Draw a rectangle in a color of its own, through the pen's blend mode. Only its points on the
canvas are visited, however large it is. -/
def fillSolid (c : Canvas) (r : Rect) (color : Color) : Canvas :=
  c.plot ((r.clip c.width c.height).points.map fun p => ⟨p.1, p.2, color⟩)

/-- Draw the points of a rectangle row by row in the given colors, as long as both last. -/
def fillContiguous (c : Canvas) (r : Rect) (colors : List Color) : Canvas :=
  c.plot ((colors.take (r.w * r.h)).mapIdx fun i color =>
    ⟨r.x + (i % r.w : Nat), r.y + (i / r.w : Nat), color⟩)

/-- Draw the whole canvas in a color of its own, through the pen's blend mode. -/
def fillAll (c : Canvas) (color : Color) : Canvas :=
  c.fillSolid ⟨0, 0, c.width, c.height⟩ color

/-- Rows of a block that a source of `len` colors fills, `w` to the row and `h` at most. The count
of full rows is a signed 32-bit word. -/
def blockRows (len : Nat) (w h : Int) : Int :=
  min h (Word32.cast (len / w.toNat : Nat))

/-- Copy a block of `w × h` colors to `(x, y)` as they are, without blending. A source too short for
the block gives only the rows that it fills. -/
def blit (c : Canvas) (source : Array Color) (w h x y : Int) : Canvas :=
  if w ≤ 0 ∨ h ≤ 0 then c
  else
    { c with
      frame := c.frame.updateRect x y w (blockRows source.size w h) fun px py old =>
        source.getD ((py - y) * w + (px - x)).toNat old }

/-- Copy a block as `blit` does, from a source of `len` colors of which `color? i` is the `i`-th, so
that a long source need not be in memory. -/
def blitFrom (c : Canvas) (len : Nat) (color? : Nat → Option Color) (w h x y : Int) : Canvas :=
  if w ≤ 0 ∨ h ≤ 0 then c
  else
    { c with
      frame := c.frame.updateRect x y w (blockRows len w h) fun px py old =>
        (color? ((py - y) * w + (px - x)).toNat).getD old }

theorem blit_eq_blitFrom (c : Canvas) (source : Array Color) (w h x y : Int) :
    c.blit source w h x y = c.blitFrom source.size (fun i => source[i]?) w h x y := by
  simp only [blit, blitFrom, Array.getD_eq_getD_getElem?]

/-- A cleared canvas has the pen's color everywhere. -/
theorem get?_clear (c : Canvas) (x y : Int) :
    c.clear.get? x y = if c.frame.Contains x y then some c.pen.color else none :=
  Frame.get?_fill ..

/-- A drawn point goes through the pen, and no other point changes. -/
theorem get?_pixel (c : Canvas) (x y px py : Int) :
    (c.pixel x y).get? px py =
      if px = x ∧ py = y then (c.get? px py).map c.pen.apply else c.get? px py :=
  Frame.get?_paint ..

/-- The points of a drawn rectangle go through the pen, and no other point changes. -/
theorem get?_rect (c : Canvas) (x y w h px py : Int) :
    (c.rect x y w h).get? px py =
      if x ≤ px ∧ px < x + w ∧ y ≤ py ∧ py < y + h then (c.get? px py).map c.pen.apply
      else c.get? px py :=
  Frame.get?_updateRect ..

/-- Points drawn in their own colors are drawn in order. -/
theorem get?_plot_cons (c : Canvas) (d : Dot) (dots : List Dot) (px py : Int) :
    (c.plot (d :: dots)).get? px py =
      (Canvas.plot { c with
        frame := c.frame.paint d.x d.y (Pen.apply ⟨d.color, c.pen.blend⟩) } dots).get? px py :=
  rfl

/-- A block replaces the points that it covers by its own colors. -/
theorem get?_blit (c : Canvas) (source : Array Color) {w h : Int} (hw : 0 < w) (hh : 0 < h)
    (x y px py : Int) :
    (c.blit source w h x y).get? px py =
      if x ≤ px ∧ px < x + w ∧ y ≤ py ∧ py < y + blockRows source.size w h then
        (c.get? px py).map fun old => source.getD ((py - y) * w + (px - x)).toNat old
      else c.get? px py := by
  have hsize : ¬ (w ≤ 0 ∨ h ≤ 0) := by omega
  unfold blit
  rw [if_neg hsize]
  exact Frame.get?_updateRect ..

@[simp]
theorem pen_clear (c : Canvas) : c.clear.pen = c.pen := rfl

@[simp]
theorem pen_rect (c : Canvas) (x y w h : Int) : (c.rect x y w h).pen = c.pen := rfl

@[simp]
theorem pen_plot (c : Canvas) (dots : List Dot) : (c.plot dots).pen = c.pen := rfl

@[simp]
theorem pen_blit (c : Canvas) (source : Array Color) (w h x y : Int) :
    (c.blit source w h x y).pen = c.pen := by
  unfold blit
  split <;> rfl

end Canvas

end Handheld
