import Handheld.Color
import Handheld.Panic

/-!
# Frames

A frame is a rectangle of pixels in row-major order. Its view is `get?`: the color of a point, or
nothing outside the rectangle. The main statements say where a point's pixel is stored
(`index?_eq_some_iff`), that a stored position belongs to one point only (`index?_inj`), that a
frame is its size and its view (`ext_get?`), what changing one position does to the view
(`get?_modify`), and for which sizes there is memory (`allocate_eq_ok_iff`).
-/

namespace Handheld

/-- A rectangle of pixels, row by row from the top left. -/
structure Frame where
  /-- Pixels in a row. -/
  width : Nat
  /-- Number of rows. -/
  height : Nat
  /-- The rows, one after the other. -/
  pixels : Array Color
  /-- The rows fill the memory exactly. -/
  size_eq : pixels.size = width * height
deriving DecidableEq

namespace Frame

/-- A frame of one color. A negative size counts as zero. -/
def filled (width height : Int) (color : Color) : Frame where
  width := width.toNat
  height := height.toNat
  pixels := Array.replicate (width.toNat * height.toNat) color
  size_eq := by simp

instance : Inhabited Frame := ⟨filled 0 0 .black⟩

/-- The pixels of a frame of this size, at four bytes each, take less than half of all addresses. -/
def Fits (width height : Int) : Prop :=
  4 * (width.toNat * height.toNat) < UInt64.size / 2

instance (width height : Int) : Decidable (Fits width height) := by
  unfold Fits
  infer_instance

/-- Find the memory for a frame of one color. A size that cannot be addressed stops the caller. -/
def allocate (width height : Int) (color : Color) : Except Panic Frame :=
  if Fits width height then .ok (filled width height color) else .error .capacity

/-- The point lies inside the frame. -/
def Contains (f : Frame) (x y : Int) : Prop :=
  0 ≤ x ∧ 0 ≤ y ∧ x < f.width ∧ y < f.height

instance (f : Frame) (x y : Int) : Decidable (f.Contains x y) := by
  unfold Contains
  infer_instance

/-- Where the pixel of a point is stored, `none` outside the frame. -/
def index? (f : Frame) (x y : Int) : Option Nat :=
  if f.Contains x y then some (y.toNat * f.width + x.toNat) else none

/-- The color of a point, `none` outside the frame. -/
def get? (f : Frame) (x y : Int) : Option Color :=
  (f.index? x y).bind fun i => f.pixels[i]?

/-- Replace the pixels and keep the size. -/
def withPixels (f : Frame) (pixels : Array Color) (h : pixels.size = f.pixels.size) : Frame :=
  { f with pixels, size_eq := h.trans f.size_eq }

/-- Change the pixel stored at a position. A position past the end changes nothing. -/
def modify (f : Frame) (i : Nat) (change : Color → Color) : Frame :=
  { f with
    pixels := f.pixels.modify i change
    size_eq := by simp [f.size_eq] }

/-- Change the pixel of one point. A point outside the frame changes nothing. -/
def paint (f : Frame) (x y : Int) (change : Color → Color) : Frame :=
  match f.index? x y with
  | some i => f.modify i change
  | none => f

/-- The channels of all pixels, as they lie in memory. -/
def bytes (f : Frame) : Array UInt8 := f.pixels.flatMap Color.bytes

/-- Memory is found exactly if the pixels can be addressed, and it holds the filled frame. -/
theorem allocate_eq_ok_iff {w h : Int} {c : Color} {f : Frame} :
    allocate w h c = .ok f ↔ Fits w h ∧ filled w h c = f := by
  unfold allocate
  split <;> simp_all

/-- A new frame has the requested size, negative sizes counted as zero. -/
@[simp]
theorem width_filled (w h : Int) (c : Color) : (filled w h c).width = w.toNat := rfl

/-- A new frame has the requested size, negative sizes counted as zero. -/
@[simp]
theorem height_filled (w h : Int) (c : Color) : (filled w h c).height = h.toNat := rfl

@[simp]
theorem width_modify (f : Frame) (i : Nat) (g : Color → Color) :
    (f.modify i g).width = f.width := rfl

@[simp]
theorem height_modify (f : Frame) (i : Nat) (g : Color → Color) :
    (f.modify i g).height = f.height := rfl

/-- A point is stored at its row times the width plus its column, and only if it is inside. -/
theorem index?_eq_some_iff {f : Frame} {x y : Int} {i : Nat} :
    f.index? x y = some i ↔ f.Contains x y ∧ y.toNat * f.width + x.toNat = i := by
  unfold index?
  split <;> simp_all

/-- A point has no place exactly when it lies outside. -/
theorem index?_eq_none_iff {f : Frame} {x y : Int} : f.index? x y = none ↔ ¬ f.Contains x y := by
  unfold index?
  split <;> simp_all

/-- Row-major position of a cell is below the number of cells. -/
theorem cell_lt {w h x y : Nat} (hx : x < w) (hy : y < h) : y * w + x < w * h := by
  calc y * w + x < y * w + w := Nat.add_lt_add_left hx _
    _ = (y + 1) * w := by rw [Nat.add_mul, Nat.one_mul]
    _ ≤ h * w := Nat.mul_le_mul_right _ hy
    _ = w * h := Nat.mul_comm _ _

/-- The column of a cell is the remainder of its row-major position. -/
theorem cell_mod {w x : Nat} (hx : x < w) (y : Nat) : (y * w + x) % w = x := by
  rw [Nat.mul_comm, Nat.mul_add_mod, Nat.mod_eq_of_lt hx]

/-- The row of a cell is the quotient of its row-major position. -/
theorem cell_div {w x : Nat} (hx : x < w) (y : Nat) : (y * w + x) / w = y := by
  rw [Nat.mul_comm, Nat.mul_add_div (Nat.lt_of_le_of_lt (Nat.zero_le _) hx), Nat.div_eq_of_lt hx,
    Nat.add_zero]

/-- Two cells at the same row-major position are the same cell. -/
theorem cell_inj {w x y x' y' : Nat} (hx : x < w) (hx' : x' < w)
    (h : y * w + x = y' * w + x') : x = x' ∧ y = y' := by
  constructor
  · rw [← cell_mod hx y, h, cell_mod hx' y']
  · rw [← cell_div hx y, h, cell_div hx' y']

/-- A stored point has a pixel. -/
theorem index?_lt_size {f : Frame} {x y : Int} {i : Nat} (h : f.index? x y = some i) :
    i < f.pixels.size := by
  obtain ⟨⟨hx, hy, hxw, hyh⟩, rfl⟩ := index?_eq_some_iff.1 h
  rw [f.size_eq]
  exact cell_lt (by omega) (by omega)

/-- Different points are stored at different positions. -/
theorem index?_inj {f : Frame} {x y x' y' : Int} {i : Nat} (h : f.index? x y = some i)
    (h' : f.index? x' y' = some i) : x = x' ∧ y = y' := by
  obtain ⟨⟨hx, hy, hxw, hyh⟩, rfl⟩ := index?_eq_some_iff.1 h
  obtain ⟨⟨hx', hy', hxw', hyh'⟩, e⟩ := index?_eq_some_iff.1 h'
  have := cell_inj (w := f.width) (by omega) (by omega) e.symm
  omega

/-- Frames of one size have the same points. -/
theorem contains_iff_of_size_eq {f g : Frame} (hwidth : f.width = g.width)
    (hheight : f.height = g.height) {x y : Int} : f.Contains x y ↔ g.Contains x y := by
  unfold Contains
  rw [hwidth, hheight]

/-- The view shows a color at the points inside and nowhere else. -/
theorem isSome_get?_iff {f : Frame} {x y : Int} : (f.get? x y).isSome ↔ f.Contains x y := by
  unfold get?
  cases h : f.index? x y with
  | none => simpa using index?_eq_none_iff.1 h
  | some i => simpa [index?_lt_size h] using (index?_eq_some_iff.1 h).1

/-- Every position belongs to the point whose column is its remainder by the width and whose row is
the quotient. -/
theorem index?_of_lt_size {f : Frame} {i : Nat} (hi : i < f.pixels.size) :
    f.index? (i % f.width : Nat) (i / f.width : Nat) = some i := by
  have hcells := f.size_eq
  have hwidth : 0 < f.width := by
    refine Nat.pos_of_ne_zero fun hzero => ?_
    rw [hzero, Nat.zero_mul] at hcells
    omega
  have hcolumn : i % f.width < f.width := Nat.mod_lt _ hwidth
  have hrow : i / f.width < f.height := Nat.div_lt_of_lt_mul (hcells ▸ hi)
  rw [index?_eq_some_iff, Int.toNat_natCast, Int.toNat_natCast, Nat.mul_comm, Nat.div_add_mod]
  exact ⟨⟨Int.natCast_nonneg _, Int.natCast_nonneg _, Int.ofNat_lt.2 hcolumn,
    Int.ofNat_lt.2 hrow⟩, rfl⟩

/-- A position holds the color of the point that it belongs to. -/
theorem getElem?_pixels (f : Frame) (i : Nat) :
    f.pixels[i]? = f.get? (i % f.width : Nat) (i / f.width : Nat) := by
  by_cases hi : i < f.pixels.size
  · rw [get?, index?_of_lt_size hi, Option.bind_some]
  -- Past the end there is no pixel, and so no point.
  · rw [Array.getElem?_eq_none (by omega)]
    cases hindex : f.index? (i % f.width : Nat) (i / f.width : Nat) with
    | none => rw [get?, hindex, Option.bind_none]
    | some j =>
      obtain ⟨-, hplace⟩ := index?_eq_some_iff.1 hindex
      rw [Int.toNat_natCast, Int.toNat_natCast, Nat.mul_comm, Nat.div_add_mod] at hplace
      exact absurd (index?_lt_size hindex) (hplace ▸ hi)

/-- Frames of one size are the same if they show the same color at every point. -/
theorem ext_get? {f g : Frame} (hwidth : f.width = g.width) (hheight : f.height = g.height)
    (h : ∀ x y, f.get? x y = g.get? x y) : f = g := by
  have hpixels : f.pixels = g.pixels := by
    refine Array.ext_getElem? fun i => ?_
    rw [getElem?_pixels, getElem?_pixels, h, hwidth]
  cases f
  cases g
  simp only [mk.injEq] at *
  exact ⟨hwidth, hheight, hpixels⟩

/-- Changing a position changes the one point stored there. -/
theorem get?_modify (f : Frame) (i : Nat) (g : Color → Color) (x y : Int) :
    (f.modify i g).get? x y =
      if f.index? x y = some i then (f.get? x y).map g else f.get? x y := by
  have hi : (f.modify i g).index? x y = f.index? x y := rfl
  unfold get?
  rw [hi]
  cases h : f.index? x y with
  | none => simp
  | some j =>
    by_cases e : i = j
    · subst e
      simp [modify, Array.getElem?_modify]
    -- The point is stored elsewhere and keeps its pixel.
    · have e' : j ≠ i := fun h => e h.symm
      simp [modify, Array.getElem?_modify, e, e']

@[simp]
theorem width_paint (f : Frame) (x y : Int) (g : Color → Color) :
    (f.paint x y g).width = f.width := by
  unfold paint
  split <;> rfl

@[simp]
theorem height_paint (f : Frame) (x y : Int) (g : Color → Color) :
    (f.paint x y g).height = f.height := by
  unfold paint
  split <;> rfl

/-- Painting a point changes that point alone. -/
theorem get?_paint (f : Frame) (x y : Int) (g : Color → Color) (px py : Int) :
    (f.paint x y g).get? px py =
      if px = x ∧ py = y then (f.get? px py).map g else f.get? px py := by
  unfold paint
  cases h : f.index? x y with
  | none =>
    by_cases e : px = x ∧ py = y
    · obtain ⟨rfl, rfl⟩ := e
      simp [get?, h]
    · rw [if_neg e]
  | some i =>
    simp only [get?_modify]
    by_cases e : px = x ∧ py = y
    · obtain ⟨rfl, rfl⟩ := e
      rw [if_pos h, if_pos ⟨rfl, rfl⟩]
    -- No other point is stored at the position that changes.
    · have hne : f.index? px py ≠ some i := fun h' => e (index?_inj h' h)
      rw [if_neg hne, if_neg e]

end Frame

end Handheld
