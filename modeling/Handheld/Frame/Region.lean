import Handheld.Frame.Basic

/-!
# Rectangles of a frame

Rectangles are given in unbounded integers and clipped to the frame: what lies outside touches
nothing. The main statement, `get?_updateRect`, says that an update of a rectangle changes exactly
the points of the frame inside it, each once and by its own coordinates.
-/

namespace Handheld

/-- A run of neighbouring positions along one axis. -/
structure Span where
  /-- First position. -/
  start : Nat
  /-- Number of positions. -/
  count : Nat
deriving DecidableEq, Repr

namespace Span

/-- The part of `[start, start + len)` that lies in `[0, limit)`. -/
def clip (start len : Int) (limit : Nat) : Span :=
  let lo := max start 0
  let hi := min (start + len) limit
  ⟨lo.toNat, (hi - lo).toNat⟩

/-- The position is one of the span's. -/
def Covers (s : Span) (p : Nat) : Prop := s.start ≤ p ∧ p < s.start + s.count

instance (s : Span) (p : Nat) : Decidable (s.Covers p) := by
  unfold Covers
  infer_instance

/-- Clipping keeps exactly the positions that are within the limit. -/
theorem covers_clip_iff (start len : Int) (limit p : Nat) :
    (clip start len limit).Covers p ↔ start ≤ p ∧ (p : Int) < start + len ∧ p < limit := by
  unfold clip Covers
  simp only
  omega

/-- A clipped span ends within the limit. -/
theorem clip_le {start len : Int} {limit : Nat} (h : 0 < (clip start len limit).count) :
    (clip start len limit).start + (clip start len limit).count ≤ limit := by
  unfold clip at *
  simp only at *
  omega

end Span

namespace Frame

/-- Change `count` neighbouring pixels from position `start` on, the `i`-th of them by
`change i`. -/
def updateRun (pixels : Array Color) (start count : Nat) (change : Nat → Color → Color) :
    Array Color :=
  count.fold (fun i _ px => px.modify (start + i) (change i)) pixels

@[simp]
theorem size_updateRun (pixels : Array Color) (start count : Nat)
    (change : Nat → Color → Color) :
    (updateRun pixels start count change).size = pixels.size := by
  unfold updateRun
  induction count with
  | zero => simp
  | succ n ih => rw [Nat.fold_succ]; simpa using ih

/-- A run changes its own positions and no other. -/
theorem getElem?_updateRun (pixels : Array Color) (start count : Nat)
    (change : Nat → Color → Color) (j : Nat) :
    (updateRun pixels start count change)[j]? =
      if start ≤ j ∧ j < start + count then pixels[j]?.map (change (j - start))
      else pixels[j]? := by
  unfold updateRun
  induction count with
  | zero =>
    rw [if_neg (by omega)]
    simp
  | succ n ih =>
    rw [Nat.fold_succ, Array.getElem?_modify, ih]
    by_cases h1 : start + n = j
    -- The position is the one that the last step adds.
    · have h2 : ¬ (start ≤ j ∧ j < start + n) := by omega
      have h3 : start ≤ j ∧ j < start + (n + 1) := by omega
      have h4 : j - start = n := by omega
      rw [if_pos h1, if_neg h2, if_pos h3, h4]
    -- The last step leaves the position alone.
    · by_cases h2 : start ≤ j ∧ j < start + n
      · have h3 : start ≤ j ∧ j < start + (n + 1) := by omega
        rw [if_neg h1, if_pos h2, if_pos h3]
      · have h3 : ¬ (start ≤ j ∧ j < start + (n + 1)) := by omega
        rw [if_neg h1, if_neg h2, if_neg h3]

/-- Change the cells of the columns `xs` in `rows` rows from row `top` on, in a memory with
`stride` cells to the row, each by its own column and row. -/
def updateCells (pixels : Array Color) (stride : Nat) (xs : Span) (top rows : Nat)
    (change : Nat → Nat → Color → Color) : Array Color :=
  rows.fold
    (fun j _ px =>
      updateRun px ((top + j) * stride + xs.start) xs.count
        fun i => change (xs.start + i) (top + j))
    pixels

@[simp]
theorem size_updateCells (pixels : Array Color) (stride : Nat) (xs : Span) (top rows : Nat)
    (change : Nat → Nat → Color → Color) :
    (updateCells pixels stride xs top rows change).size = pixels.size := by
  unfold updateCells
  induction rows with
  | zero => simp
  | succ n ih => rw [Nat.fold_succ]; simpa using ih

/-- A cell changes exactly if its column and its row are among those named. -/
theorem getElem?_updateCells (pixels : Array Color) (stride : Nat) (xs : Span) (top rows : Nat)
    (change : Nat → Nat → Color → Color) (hxs : 0 < xs.count → xs.start + xs.count ≤ stride)
    (px py : Nat) (hpx : px < stride) :
    (updateCells pixels stride xs top rows change)[py * stride + px]? =
      if xs.Covers px ∧ top ≤ py ∧ py < top + rows then
        pixels[py * stride + px]?.map (change px py)
      else pixels[py * stride + px]? := by
  unfold updateCells Span.Covers
  induction rows with
  | zero =>
    rw [if_neg (by omega)]
    simp
  | succ n ih =>
    rw [Nat.fold_succ, getElem?_updateRun, ih]
    -- Does the last row's run reach the cell?
    by_cases hrun : (top + n) * stride + xs.start ≤ py * stride + px ∧
        py * stride + px < (top + n) * stride + xs.start + xs.count
    · have hend := hxs (by omega)
      obtain ⟨k, hk⟩ : ∃ k, py * stride + px = (top + n) * stride + (xs.start + k) :=
        ⟨py * stride + px - ((top + n) * stride + xs.start), by omega⟩
      -- A run stays within its row, so the cell lies in that very row and column.
      obtain ⟨hc, hr⟩ := cell_inj hpx (by omega) hk
      subst hc hr
      have hk' : (top + n) * stride + (xs.start + k) - ((top + n) * stride + xs.start) = k := by
        omega
      rw [if_pos hrun, if_neg (by omega), if_pos (by omega), hk']
    · have hrow : (xs.start ≤ px ∧ px < xs.start + xs.count) → py ≠ top + n := by
        rintro hc rfl
        exact hrun (by omega)
      rw [if_neg hrun]
      by_cases hin : (xs.start ≤ px ∧ px < xs.start + xs.count) ∧ top ≤ py ∧ py < top + n
      · rw [if_pos hin, if_pos (by omega)]
      · rw [if_neg hin, if_neg (by omega)]

/-- Change every point of `[x, x + w) × [y, y + h)` that is inside the frame, each by its own
coordinates. Without a column to change, no row is visited. -/
def updateRect (f : Frame) (x y w h : Int) (change : Int → Int → Color → Color) : Frame :=
  let xs := Span.clip x w f.width
  let ys := Span.clip y h f.height
  if xs.count = 0 then f
  else
    f.withPixels (updateCells f.pixels f.width xs ys.start ys.count fun px py => change px py)
      (size_updateCells ..)

@[simp]
theorem width_updateRect (f : Frame) (x y w h : Int) (g : Int → Int → Color → Color) :
    (f.updateRect x y w h g).width = f.width := by
  unfold updateRect
  simp only
  split <;> rfl

@[simp]
theorem height_updateRect (f : Frame) (x y w h : Int) (g : Int → Int → Color → Color) :
    (f.updateRect x y w h g).height = f.height := by
  unfold updateRect
  simp only
  split <;> rfl

/-- An update of a rectangle changes its points and no other. -/
theorem get?_updateRect (f : Frame) (x y w h : Int) (g : Int → Int → Color → Color)
    (px py : Int) :
    (f.updateRect x y w h g).get? px py =
      if x ≤ px ∧ px < x + w ∧ y ≤ py ∧ py < y + h then (f.get? px py).map (g px py)
      else f.get? px py := by
  have hi : (f.updateRect x y w h g).index? px py = f.index? px py := by
    simp [index?, Contains]
  unfold get?
  rw [hi]
  cases hidx : f.index? px py with
  | none => simp
  | some i =>
    obtain ⟨⟨hx, hy, hxw, hyh⟩, rfl⟩ := index?_eq_some_iff.1 hidx
    have hc := Span.covers_clip_iff x w f.width px.toNat
    have hr := Span.covers_clip_iff y h f.height py.toNat
    have key := getElem?_updateCells f.pixels f.width (.clip x w f.width)
      (Span.clip y h f.height).start (Span.clip y h f.height).count (fun px py => g px py)
      Span.clip_le px.toNat py.toNat (by omega)
    have hcov : ((Span.clip x w f.width).Covers px.toNat ∧ (Span.clip y h f.height).start ≤
        py.toNat ∧ py.toNat < (Span.clip y h f.height).start + (Span.clip y h f.height).count) ↔
        x ≤ px ∧ px < x + w ∧ y ≤ py ∧ py < y + h := by
      unfold Span.Covers at *
      omega
    -- A point inside the frame is covered by both spans exactly if the rectangle holds it.
    simp only [hcov, Int.toNat_of_nonneg hx, Int.toNat_of_nonneg hy] at key
    unfold updateRect
    simp only
    split
    · have hno : ¬ (x ≤ px ∧ px < x + w ∧ y ≤ py ∧ py < y + h) := by
        unfold Span.Covers at *
        omega
      rw [if_neg hno]
    · exact key

/-- Set every pixel to one color. -/
def fill (f : Frame) (color : Color) : Frame :=
  f.withPixels (Array.replicate f.pixels.size color) (by simp)

@[simp]
theorem width_fill (f : Frame) (c : Color) : (f.fill c).width = f.width := rfl

@[simp]
theorem height_fill (f : Frame) (c : Color) : (f.fill c).height = f.height := rfl

/-- After a fill every point has the same color. -/
theorem get?_fill (f : Frame) (c : Color) (x y : Int) :
    (f.fill c).get? x y = if f.Contains x y then some c else none := by
  have hi : (f.fill c).index? x y = f.index? x y := rfl
  unfold get?
  rw [hi]
  cases h : f.index? x y with
  | none => simp [index?_eq_none_iff.1 h]
  | some i =>
    have hs := index?_lt_size h
    simp [(index?_eq_some_iff.1 h).1, fill, withPixels, Array.getElem?_replicate, hs]

end Frame

end Handheld
