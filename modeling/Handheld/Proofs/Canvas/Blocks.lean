import Handheld.Canvas.Command
import Handheld.Proofs.Canvas.Rows

/-!
# Blocks on a canvas

A block replaces the points that it covers by the colors of its source, row by row, as far as the
source has full rows. These are counted by a signed 32-bit word, which a source of `2 ^ 31` rows or
more overruns: then fewer rows are copied than the source fills, or none.

* `get?_blit_of_contains`: the color of a covered point is one of the source's.
* `blit_copies_counted_rows`: what a block does, that no copy of it slips, and exactly when the rows
  that the source fills are all counted.
-/

namespace Handheld.Canvas

variable {c : Canvas} {source : Array Color} {w h x y px py : Int}

theorem blit_of_no_cells (c : Canvas) (source : Array Color) (hnone : w ≤ 0 ∨ h ≤ 0) (x y : Int) :
    c.blit source w h x y = c :=
  if_pos hnone

/-- The place of a covered point within the source, in the rows that the source fills. -/
theorem place_lt_size (hw : 0 < w) (hx : x ≤ px) (hxw : px < x + w) (hy : y ≤ py)
    (hrows : py < y + blockRows source.size w h) :
    ((py - y) * w + (px - x)).toNat < source.size := by
  have hfilled := blockRows_le source.size w h
  generalize blockRows source.size w h = rows at hrows hfilled
  obtain ⟨down, hdown⟩ : ∃ down : Nat, py - y = down := Int.eq_ofNat_of_zero_le (by omega)
  obtain ⟨right, hright⟩ : ∃ right : Nat, px - x = right := Int.eq_ofNat_of_zero_le (by omega)
  obtain ⟨width, rfl⟩ : ∃ width : Nat, w = width := Int.eq_ofNat_of_zero_le (by omega)
  rw [hdown, hright, ← Int.natCast_mul, ← Int.natCast_add, Int.toNat_natCast]
  -- The point's row is full, and the point is before its end.
  rw [Int.toNat_natCast] at hfilled
  have hfull : (down + 1) * width ≤ source.size := Nat.mul_le_of_le_div _ _ _ (by omega)
  rw [Nat.succ_mul] at hfull
  omega

/-- A point of the canvas that a block covers gets the color of its place in the source. -/
theorem get?_blit_of_contains (hw : 0 < w) (hh : 0 < h) (hin : c.frame.Contains px py)
    (hx : x ≤ px) (hxw : px < x + w) (hy : y ≤ py)
    (hrows : py < y + blockRows source.size w h) :
    (c.blit source w h x y).get? px py = source[((py - y) * w + (px - x)).toNat]? := by
  obtain ⟨old, hold⟩ := Option.isSome_iff_exists.1 (Frame.isSome_get?_iff.2 hin)
  have hplace := Array.getElem?_eq_getElem (place_lt_size hw hx hxw hy hrows)
  rw [get?_blit c source hw hh, if_pos ⟨hx, hxw, hy, hrows⟩, get?, hold, Option.map_some,
    Array.getD_eq_getD_getElem?, hplace, Option.getD_some]

/-- A point that is not in the block keeps its color, however many rows are copied. -/
theorem get?_blit_of_outside (c : Canvas) (source : Array Color)
    (hout : ¬ (x ≤ px ∧ px < x + w ∧ y ≤ py ∧ py < y + h)) :
    (c.blit source w h x y).get? px py = c.get? px py := by
  by_cases hnone : w ≤ 0 ∨ h ≤ 0
  · rw [blit_of_no_cells c source hnone]
  · have hheight := blockRows_le_height source.size w h
    rw [get?_blit c source (by omega) (by omega), if_neg]
    -- The copied rows are among those of the block.
    generalize blockRows source.size w h = rows at hheight ⊢
    omega

/-- What copying `rows` rows of a block with `w` colors to the row makes of a canvas. -/
structure Copied (before after : Canvas) (source : Array Color) (w x y rows : Int) : Prop where
  /-- The pen stays. -/
  pen_eq : after.pen = before.pen
  /-- The size stays. -/
  size_eq : after.width = before.width ∧ after.height = before.height
  /-- A covered point of the canvas gets the source's color as it is. -/
  inside : ∀ px py, before.frame.Contains px py →
    x ≤ px → px < x + w → y ≤ py → py < y + rows →
    after.get? px py = source[((py - y) * w + (px - x)).toNat]?
  /-- Every other point keeps its color. -/
  outside : ∀ px py, ¬ (x ≤ px ∧ px < x + w ∧ y ≤ py ∧ py < y + rows) →
    after.get? px py = before.get? px py

theorem copied_blit (c : Canvas) (source : Array Color) (hw : 0 < w) (hh : 0 < h) (x y : Int) :
    Copied c (c.blit source w h x y) source w x y (blockRows source.size w h) where
  pen_eq := pen_blit ..
  size_eq := ⟨width_blit .., height_blit ..⟩
  inside _ _ hin hx hxw hy hrows := get?_blit_of_contains hw hh hin hx hxw hy hrows
  outside px py hout := by rw [get?_blit c source hw hh, if_neg hout]

/-- On every canvas, from every source in memory and for all signed 32-bit words, copying a block
never goes past the end of the source or of the canvas. A block without a column or a row changes
nothing. Any other replaces the points that its rows cover by the source's colors, whatever the pen,
and nothing else. There are never more rows than the block has or the source fills, and exactly
these if the number of rows that the source fills is a signed word, or if it is counted as one that
does not fall short of the block. -/
theorem blit_copies_counted_rows (c : Canvas) (source : Array Color) (w h x y : Int)
    (hframe : Frame.Fits c.width c.height) (hsource : source.size < UInt64.size)
    (hx : Word32.Fits x) (hy : Word32.Fits y) (hw : Word32.Fits w) (hh : Word32.Fits h) :
    c.blitByRows source w h x y = .ok (c.blit source w h x y).frame.pixels ∧
      (w ≤ 0 ∨ h ≤ 0 → c.blit source w h x y = c) ∧
      (0 < w → 0 < h →
        let filled : Int := (source.size / w.toNat : Nat)
        let rows := blockRows source.size w h
        Copied c (c.blit source w h x y) source w x y rows ∧ rows ≤ min h filled ∧
          (rows = min h filled ↔
            filled ≤ Word32.greatest ∨ h ≤ Word32.cast filled)) :=
  ⟨blitByRows_eq_ok hframe hsource hx hy hw hh, fun hnone => blit_of_no_cells c source hnone x y,
    fun hw hh => ⟨copied_blit c source hw hh x y,
      Int.le_min.2 ⟨blockRows_le_height .., blockRows_le ..⟩, blockRows_eq_min_iff ..⟩⟩

/-- A source of `2 ^ 31` rows with one color each is counted as having fewer than none. So nothing
is copied from it, although its second color is there for the point of the canvas. -/
theorem uncounted_rows_left :
    let c : Canvas := ⟨.filled 1 1 .black, ⟨.white, .copy⟩⟩
    let source := Array.replicate 2147483648 Color.white
    let after := c.blit source 1 2 0 (-1)
    (Frame.Fits c.width c.height ∧ source.size < UInt64.size ∧ Word32.Fits 0 ∧ Word32.Fits (-1) ∧
        Word32.Fits 1 ∧ Word32.Fits 2) ∧
      c.blitByRows source 1 2 0 (-1) = .ok after.frame.pixels ∧
      after.get? 0 0 = some .black ∧ source[1]? = some .white ∧
      blockRows source.size 1 2 ≠ min 2 (source.size / (1 : Int).toNat : Nat) := by
  intro c source after
  have hsize : source.size = 2147483648 := Array.size_replicate
  have hsource : source.size < UInt64.size := by
    rw [hsize]
    decide
  have hfits : Frame.Fits c.width c.height ∧ source.size < UInt64.size ∧ Word32.Fits 0 ∧
      Word32.Fits (-1) ∧ Word32.Fits 1 ∧ Word32.Fits 2 :=
    ⟨by decide, hsource, by decide, by decide, by decide, by decide⟩
  obtain ⟨hcopy, -, hblock⟩ := blit_copies_counted_rows c source 1 2 0 (-1) (by decide) hsource
    (by decide) (by decide) (by decide) (by decide)
  obtain ⟨hcopied, -, -⟩ := hblock (by decide) (by decide)
  have hrows : blockRows source.size 1 2 = -2147483648 := by
    rw [hsize]
    decide
  rw [hrows] at hcopied
  have hleft : after.get? 0 0 = c.get? 0 0 := hcopied.outside 0 0 (by decide)
  have hwhite : source[1]? = some Color.white := by
    rw [Array.getElem?_replicate, if_pos (by decide)]
  refine ⟨hfits, hcopy, hleft.trans (by decide), hwhite, ?_⟩
  rw [hrows, hsize]
  decide

end Handheld.Canvas
