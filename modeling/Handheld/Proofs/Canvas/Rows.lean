import Handheld.Canvas.Rows
import Handheld.Number.Checked

/-!
# What drawing row by row leaves

No row of a rectangle or a block slips if the arguments are signed 32-bit words and the pixels are
in memory, and then the pixels are those of `Canvas.rect` and `Canvas.blit`.

* `clipSpan_eq`: clipping in words gives the bounds of `Span.clip`.
* `storeAt_eq_updateRun`: a slice stored over is a changed run of pixels.
* `foldlM_eq_updateCells`: row after row makes a changed rectangle of cells.
* `rectByRows_eq_ok`, `blitByRows_eq_ok`: no slip, and the pixels of the drawing.
-/

namespace Handheld

namespace Rows

/-! ## Clipping -/

theorem ok_bind {α β : Type} (a : α) (next : α → Except Slip β) : (Except.ok a >>= next) = next a :=
  rfl

theorem signed_eq_ok {n : Int} (h : -((UInt64.size / 2 : Nat) : Int) ≤ n)
    (h' : n < (UInt64.size / 2 : Nat)) : signed n = .ok n :=
  if_pos ⟨h, h'⟩

theorem address_eq_ok {n : Nat} (h : n < UInt64.size) : address n = .ok n := if_pos h

theorem slice_eq_ok {memory : Array Color} {first stop : Nat} (h : first ≤ stop)
    (h' : stop ≤ memory.size) : slice memory first stop = .ok (memory.extract first stop) :=
  if_pos ⟨h, h'⟩

/-- A number that is not negative is its own address. -/
theorem toAddress_natCast {n : Nat} (h : n < UInt64.size) : toAddress n = n := by
  rw [toAddress, Int.emod_eq_of_lt (Int.natCast_nonneg n) (by exact_mod_cast h), Int.toNat_natCast]

/-- For words of 32 bits clipping does not overflow, and finds the bounds of the clipped span. -/
theorem clipSpan_eq {start len : Int} (hstart : Word32.Fits start) (hlen : Word32.Fits len)
    (limit : Nat) :
    clipSpan start len limit = .ok (if 0 < (Span.clip start len limit).count then
      some ((Span.clip start len limit).start,
        (Span.clip start len limit).start + (Span.clip start len limit).count)
    else none) := by
  have hhalf : UInt64.size / 2 = 9223372036854775808 := rfl
  have hsize : UInt64.size = 18446744073709551616 := rfl
  obtain ⟨hstart, hstart'⟩ := hstart
  obtain ⟨hlen, hlen'⟩ := hlen
  simp only [Word32.least, Word32.greatest] at hstart hstart' hlen hlen'
  -- The first position of the span and its length, in the integers.
  have hfirst : ((Span.clip start len limit).start : Int) = max start 0 := by
    show ((max start 0).toNat : Int) = max start 0
    omega
  have hcount : ((Span.clip start len limit).count : Int) =
      max (min (start + len) limit - max start 0) 0 := by
    show ((min (start + len) limit - max start 0).toNat : Int) = _
    omega
  generalize Span.clip start len limit = span at hfirst hcount ⊢
  rw [clipSpan]
  by_cases hpos : len ≤ 0
  · rw [if_pos hpos, if_neg (by omega)]
  -- The sum of two words of 32 bits is a word of 64 bits.
  rw [if_neg hpos, signed_eq_ok (by omega) (by omega), ok_bind]
  by_cases hle : min (start + len) (limit : Int) ≤ max start 0
  · rw [if_pos hle, if_neg (by omega)]
  · have hlast : min (start + len) (limit : Int) = (span.start + span.count : Nat) := by omega
    rw [if_neg hle, if_pos (by omega), ← hfirst, hlast, toAddress_natCast (by omega),
      toAddress_natCast (by omega)]

/-! ## One row -/

variable {memory source : Array Color} {stride row x0 x1 : Nat}

theorem rowBounds_eq_ok (hcolumns : x0 ≤ x1) (hrow : row * stride + x1 < UInt64.size) :
    rowBounds stride row x0 x1 = .ok (row * stride + x0, row * stride + x1) := by
  rw [rowBounds, address_eq_ok (by omega), ok_bind, address_eq_ok (by omega), ok_bind,
    address_eq_ok hrow]
  rfl

/-- Colors stored over as many pixels change that run of pixels, if each of them is what the change
makes of the pixel below. -/
theorem storeAt_eq_updateRun {first count : Nat} {colors : Array Color}
    {change : Nat → Color → Color} (hfirst : first + count ≤ memory.size)
    (hcount : colors.size = count)
    (hcolors : ∀ i, i < count → colors[i]? = memory[first + i]?.map (change i)) :
    storeAt memory first colors = Frame.updateRun memory first count change := by
  refine Array.ext_getElem? fun j => ?_
  have hbefore : (memory.extract 0 first).size = first := by
    rw [Array.size_extract]
    omega
  rw [Frame.getElem?_updateRun, storeAt, Array.append_assoc, Array.getElem?_append, hbefore]
  -- Before the run and after it the memory is as it was.
  by_cases hj : j < first
  · rw [if_pos hj, if_neg (by omega), Array.getElem?_extract, if_pos (by omega), Nat.zero_add]
  rw [if_neg hj, Array.getElem?_append, hcount]
  by_cases hin : j - first < count
  · have hback : first + (j - first) = j := by omega
    rw [if_pos hin, if_pos (by omega), hcolors _ hin, hback]
  · have hback : first + count + (j - first - count) = j := by omega
    rw [if_neg hin, if_neg (by omega), Array.getElem?_extract, hback]
    split
    · rfl
    · rw [Array.getElem?_eq_none (by omega)]

theorem paintRow_eq_ok (pen : Pen) (hcolumns : x0 ≤ x1) (hrow : row * stride + x1 ≤ memory.size)
    (hsize : memory.size < UInt64.size) :
    paintRow pen stride x0 x1 memory row =
      .ok (Frame.updateRun memory (row * stride + x0) (x1 - x0) fun _ => pen.apply) := by
  rw [paintRow, rowBounds_eq_ok hcolumns (by omega), ok_bind]
  simp only
  rw [slice_eq_ok (by omega) hrow, ok_bind]
  have hold : (memory.extract (row * stride + x0) (row * stride + x1)).size = x1 - x0 := by
    rw [Array.size_extract]
    omega
  refine congrArg Except.ok (storeAt_eq_updateRun (by omega) ?_ fun i hi => ?_)
  · split
    · rw [Array.size_replicate, hold]
    · rw [Array.size_map, hold]
  -- A pen that stores makes its own color of every pixel, so filling and applying agree.
  · by_cases hstores : pen.stores = true
    · have hpixel : memory[row * stride + x0 + i]? = some memory[row * stride + x0 + i] :=
        Array.getElem?_eq_getElem (by omega)
      rw [if_pos hstores, Array.getElem?_replicate, hold, if_pos hi, hpixel, Option.map_some,
        Pen.apply_of_stores hstores]
    · rw [if_neg hstores, Array.getElem?_map, Array.getElem?_extract, if_pos (by omega)]

/-- A row is copied from `right` colors behind the start of row `down` of the source. -/
theorem copyRow_eq_ok {w right down : Nat} {x y : Int} (hcolumns : x0 ≤ x1)
    (hrow : row * stride + x1 ≤ memory.size) (hsize : memory.size < UInt64.size)
    (hright : (x0 : Int) - x = right) (hright' : right < UInt64.size / 2)
    (hdown : (row : Int) - y = down) (hdown' : down < UInt64.size / 2)
    (hsource : down * w + right + (x1 - x0) ≤ source.size) (hsize' : source.size < UInt64.size) :
    copyRow source w x y stride x0 x1 memory row =
      .ok (Frame.updateRun memory (row * stride + x0) (x1 - x0) fun i old =>
        source.getD (down * w + right + i) old) := by
  have hhalf : UInt64.size / 2 = 9223372036854775808 := rfl
  have hwhole : UInt64.size = 18446744073709551616 := rfl
  rw [copyRow, hright, signed_eq_ok (by omega) (by omega), ok_bind, hdown,
    signed_eq_ok (by omega) (by omega), ok_bind, toAddress_natCast (by omega),
    address_eq_ok (by omega), ok_bind, toAddress_natCast (by omega), address_eq_ok (by omega),
    ok_bind, rowBounds_eq_ok hcolumns (by omega), ok_bind]
  simp only
  rw [slice_eq_ok (by omega) hrow, ok_bind, address_eq_ok (by omega), ok_bind,
    slice_eq_ok (by omega) hsource, ok_bind]
  have hold : (memory.extract (row * stride + x0) (row * stride + x1)).size = x1 - x0 := by
    rw [Array.size_extract]
    omega
  have hnew : (source.extract (down * w + right) (down * w + right + (x1 - x0))).size =
      x1 - x0 := by
    rw [Array.size_extract]
    omega
  rw [hold, hnew, if_pos rfl]
  refine congrArg Except.ok (storeAt_eq_updateRun (by omega) hnew fun i hi => ?_)
  have hpixel : memory[row * stride + x0 + i]? = some memory[row * stride + x0 + i] :=
    Array.getElem?_eq_getElem (by omega)
  have hcolor : source[down * w + right + i]? = some source[down * w + right + i] :=
    Array.getElem?_eq_getElem (by omega)
  rw [Array.getElem?_extract, if_pos (by omega), hpixel, Option.map_some,
    Array.getD_eq_getD_getElem?, hcolor, Option.getD_some]

/-! ## All rows -/

/-- If every row is a changed run, the rows one after the other are a changed rectangle of cells. -/
theorem foldlM_eq_updateCells {step : Array Color → Nat → Except Slip (Array Color)} {xs : Span}
    {change : Nat → Nat → Color → Color} {pixels : Array Color} (top rows : Nat)
    (hstep : ∀ memory j, memory.size = pixels.size → j < rows → step memory (top + j) =
      .ok (Frame.updateRun memory ((top + j) * stride + xs.start) xs.count
        fun i => change (xs.start + i) (top + j))) :
    (List.range' top rows).foldlM step pixels =
      .ok (Frame.updateCells pixels stride xs top rows change) := by
  -- The last row comes after all others, and they have left the size as it was.
  induction rows with
  | zero => rfl
  | succ n ih =>
    have hbefore := ih fun memory j hsize hj => hstep memory j hsize (by omega)
    have hlast := hstep (Frame.updateCells pixels stride xs top n change) n
      (Frame.size_updateCells ..) (Nat.lt_succ_self n)
    rw [List.range'_concat, List.foldlM_append, hbefore, ok_bind, Nat.one_mul, List.foldlM_cons,
      hlast, ok_bind]
    simp only [Frame.updateCells, Nat.fold_succ]
    rfl

/-- A frame that fits in memory has fewer pixels than there are addresses. -/
theorem size_lt_of_fits {f : Frame} (h : Frame.Fits f.width f.height) :
    f.pixels.size < UInt64.size := by
  have hhalf : UInt64.size / 2 = 9223372036854775808 := rfl
  have hwhole : UInt64.size = 18446744073709551616 := rfl
  rw [f.size_eq]
  unfold Frame.Fits at h
  rw [Int.toNat_natCast, Int.toNat_natCast] at h
  omega

/-- A row of a clipped rectangle ends within the pixels of the frame. -/
theorem row_end_le {f : Frame} {row stop : Nat} (hrow : row < f.height) (hstop : stop ≤ f.width) :
    row * f.width + stop ≤ f.pixels.size := by
  rw [f.size_eq]
  calc row * f.width + stop ≤ row * f.width + f.width := Nat.add_le_add_left hstop _
    _ = (row + 1) * f.width := (Nat.succ_mul ..).symm
    _ ≤ f.height * f.width := Nat.mul_le_mul_right _ hrow
    _ = f.width * f.height := Nat.mul_comm ..

theorem pixels_updateRect (f : Frame) (x y w h : Int) (change : Int → Int → Color → Color) :
    (f.updateRect x y w h change).pixels =
      if 0 < (Span.clip x w f.width).count then
        Frame.updateCells f.pixels f.width (.clip x w f.width) (Span.clip y h f.height).start
          (Span.clip y h f.height).count fun px py => change px py
      else f.pixels := by
  rw [Frame.updateRect]
  by_cases h : 0 < (Span.clip x w f.width).count
  · rw [if_pos h]
    exact congrArg Frame.pixels (if_neg (by omega))
  · rw [if_neg h]
    exact congrArg Frame.pixels (if_pos (by omega))

/-- A rectangle changed row by row does not slip if no row of it does, and is the rectangle
changed. -/
theorem update_eq_ok {f : Frame} {x y w h : Int} {change : Int → Int → Color → Color}
    {step : Nat → Nat → Array Color → Nat → Except Slip (Array Color)}
    (hx : Word32.Fits x) (hy : Word32.Fits y) (hw : Word32.Fits w) (hh : Word32.Fits h)
    (hstep : ∀ (x0 x1 : Nat) memory (row : Nat), memory.size = f.pixels.size →
      x ≤ x0 ∧ x0 < x1 ∧ (x1 : Int) ≤ x + w ∧ x1 ≤ f.width →
      y ≤ row ∧ (row : Int) < y + h ∧ row < f.height →
      step x0 x1 memory row =
        .ok (Frame.updateRun memory (row * f.width + x0) (x1 - x0)
          fun i => change (x0 + i : Nat) row)) :
    update f x y w h step = .ok (f.updateRect x y w h change).pixels := by
  rw [update, clipSpan_eq hx hw, ok_bind, clipSpan_eq hy hh, pixels_updateRect]
  have hcolumn := Span.covers_clip_iff x w f.width
  have hrow := Span.covers_clip_iff y h f.height
  generalize Span.clip x w f.width = xs at hcolumn ⊢
  generalize Span.clip y h f.height = ys at hrow ⊢
  simp only [Span.Covers] at hcolumn hrow
  by_cases hxs : 0 < xs.count
  · rw [if_pos hxs, if_pos hxs]
    by_cases hys : 0 < ys.count
    · rw [if_pos hys]
      have hcolumns : xs.start + xs.count - xs.start = xs.count := by omega
      have hrows : ys.start + ys.count - ys.start = ys.count := by omega
      show (List.range' ys.start (ys.start + ys.count - ys.start)).foldlM _ _ = _
      rw [hrows]
      refine foldlM_eq_updateCells ys.start ys.count fun memory j hsize hj => ?_
      -- The first and the last column of the span, and the row, are within the frame.
      have hfirst := (hcolumn xs.start).1 (by omega)
      have hlast := (hcolumn (xs.start + xs.count - 1)).1 (by omega)
      have hthis := (hrow (ys.start + j)).1 (by omega)
      rw [hstep xs.start (xs.start + xs.count) memory (ys.start + j) hsize (by omega) hthis,
        hcolumns]
    -- Without a row nothing is changed.
    · have hzero : ys.count = 0 := by omega
      rw [if_neg hys, hzero]
      rfl
  · rw [if_neg hxs, if_neg hxs]
    rfl

end Rows

namespace Canvas

open Rows

variable {c : Canvas} {x y w h : Int}

/-- Drawing a rectangle row by row never slips, and leaves the pixels of the rectangle drawn. -/
theorem rectByRows_eq_ok (hframe : Frame.Fits c.width c.height) (hx : Word32.Fits x)
    (hy : Word32.Fits y) (hw : Word32.Fits w) (hh : Word32.Fits h) :
    c.rectByRows x y w h = .ok (c.rect x y w h).frame.pixels := by
  refine update_eq_ok hx hy hw hh fun x0 x1 memory row hsize hcolumns hrow => ?_
  refine paintRow_eq_ok c.pen (by omega) ?_ (hsize ▸ size_lt_of_fits hframe)
  rw [hsize]
  exact row_end_le hrow.2.2 hcolumns.2.2.2

/-! ## The rows of a block -/

variable {source : Array Color}

theorem fits_blockRows (len : Nat) (w : Int) (hh : Word32.Fits h) :
    Word32.Fits (blockRows len w h) := by
  exact ⟨Int.le_min.2 ⟨hh.1, (Word32.fits_cast _).1⟩, Int.le_trans (Int.min_le_left ..) hh.2⟩

theorem blockRows_le_height (len : Nat) (w h : Int) : blockRows len w h ≤ h := Int.min_le_left ..

/-- A block has no more rows than its source fills, whatever becomes of their number in its word. -/
theorem blockRows_le (len : Nat) (w h : Int) : blockRows len w h ≤ (len / w.toNat : Nat) := by
  exact Int.le_trans (Int.min_le_right ..) (Word32.cast_natCast_le _)

/-- The rows of a block are those that the source fills, if these can be counted by a signed word or
if the word that comes out instead does not fall short of the block. -/
theorem blockRows_eq_min_iff (len : Nat) (w h : Int) :
    blockRows len w h = min h (len / w.toNat : Nat) ↔
      ((len / w.toNat : Nat) : Int) ≤ Word32.greatest ∨
        h ≤ Word32.cast (len / w.toNat : Nat) := by
  have hmin : ∀ counted rows : Int, counted = rows ∧ rows ≤ Word32.greatest ∨
      counted < rows ∧ Word32.greatest < rows →
      (min h counted = min h rows ↔ rows ≤ Word32.greatest ∨ h ≤ counted) := by
    intro counted rows hcases
    omega
  exact hmin _ _ (Word32.cast_natCast_cases _)

/-- Copying a block row by row never slips, and leaves the pixels of the block copied. -/
theorem blitByRows_eq_ok (hframe : Frame.Fits c.width c.height)
    (hsource : source.size < UInt64.size) (hx : Word32.Fits x) (hy : Word32.Fits y)
    (hw : Word32.Fits w) (hh : Word32.Fits h) :
    c.blitByRows source w h x y = .ok (c.blit source w h x y).frame.pixels := by
  unfold blitByRows blit
  by_cases hnone : w ≤ 0 ∨ h ≤ 0
  · rw [if_pos hnone, if_pos hnone]
  rw [if_neg hnone, if_neg hnone]
  have hheight := blockRows_le_height source.size w h
  have hrows := blockRows_le source.size w h
  have hfits := fits_blockRows source.size w hh
  generalize blockRows source.size w h = rows at hheight hrows hfits ⊢
  refine update_eq_ok hx hy hw hfits fun x0 x1 memory row hsize hcolumns hrow => ?_
  obtain ⟨right, hright⟩ : ∃ right : Nat, (x0 : Int) - x = right :=
    Int.eq_ofNat_of_zero_le (by omega)
  obtain ⟨down, hdown⟩ : ∃ down : Nat, (row : Int) - y = down :=
    Int.eq_ofNat_of_zero_le (by omega)
  -- The source fills the row, which ends at most where the next one starts.
  have hfull : (down + 1) * w.toNat ≤ source.size := Nat.mul_le_of_le_div _ _ _ (by omega)
  rw [Nat.succ_mul] at hfull
  have hend : row * c.frame.width + x1 ≤ memory.size :=
    hsize ▸ row_end_le hrow.2.2 hcolumns.2.2.2
  simp only [Word32.Fits, Word32.least, Word32.greatest] at hx hy hw hh
  have hhalf : UInt64.size / 2 = 9223372036854775808 := rfl
  rw [width, copyRow_eq_ok (by omega) hend (hsize ▸ size_lt_of_fits hframe) hright (by omega) hdown
    (by omega) (by omega) hsource]
  -- The source's own rows are found from the place of the point relative to the corner.
  have hplace : ∀ i : Nat, (((row : Int) - y) * w + (((x0 + i : Nat) : Int) - x)).toNat =
      down * w.toNat + right + i := by
    intro i
    have hcolumn : ((x0 + i : Nat) : Int) - x = (right + i : Nat) := by omega
    obtain ⟨width, rfl⟩ : ∃ width : Nat, w = width := Int.eq_ofNat_of_zero_le (by omega)
    rw [hdown, hcolumn, ← Int.natCast_mul, ← Int.natCast_add, Int.toNat_natCast,
      Int.toNat_natCast, Nat.add_assoc]
  simp only [hplace]

end Canvas

end Handheld
