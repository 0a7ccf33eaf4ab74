import Handheld.Demo.Bars
import Handheld.Proofs.Canvas.Writing

/-!
# What a draw of the bars repaints

Counted over the copies there are sixteen bars side by side, the first one `shift` columns left of
the canvas. They end at the column `reach`, and what lies right of it is not drawn. Eight copies of
a rounded bar may be up to seven columns narrower than the canvas, so that on many canvases `reach`
comes to lie within the canvas for some offsets, where the columns from there on keep what they
showed two frames ago.

* `placeOf`: the bar that lies over a column, counted over the copies.
* `get?_paintBars`: the color of every point after some bars, by induction on the bars.
* `start_drawBars`: drawing the bars paints them, or stops where a copy is too far to the right.
* `forall_le_reach_iff`: the widths of which every offset covers all columns.
* `draw_repaints_up_to_reach`: the color of every point after a draw.
-/

namespace Handheld.Demo.Bars

open Text (mask)

variable {σ : Type}

/-! ## Columns -/

/-- The first column of bar `i`, counted over the copies. -/
def columnOf (width : Nat) (offset : Int32) (i : Nat) : Int :=
  i * barWidth width - shift width offset

/-- The first column right of all bars and their copies. -/
def reach (width : Nat) (offset : Int32) : Int := columnOf width offset 16

/-- The bar over a column, counted over the copies. -/
def placeOf (width : Nat) (offset : Int32) (x : Int) : Int :=
  (x + shift width offset) / barWidth width

theorem barWidth_pos (width : Nat) : 0 < barWidth width := by
  unfold barWidth
  omega

theorem barWidth_eq (width : Nat) : barWidth width = (max (width / 8) 1 : Nat) := by
  have hdiv : (width : Int).tdiv 8 = (width / 8 : Nat) := rfl
  rw [barWidth, hdiv]
  omega

theorem shift_nonneg (width : Nat) (offset : Int32) : 0 ≤ shift width offset :=
  Int.emod_nonneg _ (by have := barWidth_pos width; omega)

theorem shift_lt (width : Nat) (offset : Int32) : shift width offset < barWidth width * 8 :=
  Int.emod_lt_of_pos _ (by have := barWidth_pos width; omega)

theorem columnOf_add (width : Nat) (offset : Int32) (i j : Nat) :
    columnOf width offset (i + j) = columnOf width offset i + j * barWidth width := by
  unfold columnOf
  rw [Int.natCast_add, Int.add_mul]
  omega

/-- A bar covers the columns whose place is its number. -/
theorem columnOf_le_and_lt_iff {width : Nat} {offset : Int32} {x : Int} {i : Nat} :
    columnOf width offset i ≤ x ∧ x < columnOf width offset i + barWidth width ↔
      placeOf width offset x = i := by
  have hbar := barWidth_pos width
  have hleft : columnOf width offset i ≤ x ↔ (i : Int) ≤ placeOf width offset x := by
    unfold placeOf columnOf
    rw [Int.le_ediv_iff_mul_le hbar]
    omega
  have hright : x < columnOf width offset i + barWidth width ↔
      placeOf width offset x < (i : Int) + 1 := by
    unfold placeOf columnOf
    rw [Int.ediv_lt_iff_lt_mul hbar, Int.add_mul]
    omega
  rw [hleft, hright]
  omega

/-- The columns left of `reach` are those of the sixteen bars. -/
theorem lt_reach_iff {width : Nat} {offset : Int32} {x : Int} :
    x < reach width offset ↔ placeOf width offset x < 16 := by
  unfold reach placeOf columnOf
  rw [Int.ediv_lt_iff_lt_mul (barWidth_pos width)]
  omega

theorem placeOf_nonneg (width : Nat) (offset : Int32) {x : Int} (hx : 0 ≤ x) :
    0 ≤ placeOf width offset x :=
  Int.ediv_nonneg (Int.add_nonneg hx (shift_nonneg width offset)) (Int.le_of_lt (barWidth_pos width))

/-- The bars repeat after eight of them, as the colors do. -/
theorem emod_ediv_eq_placeOf_emod {width : Nat} {offset : Int32} {x : Int} (hx : 0 ≤ x) :
    (x + offset.toInt) % (barWidth width * 8) / barWidth width = placeOf width offset x % 8 := by
  have hshift : (x + offset.toInt) % (barWidth width * 8) =
      (x + shift width offset) % (barWidth width * 8) := (Int.add_emod_emod ..).symm
  obtain ⟨n, hn⟩ := Int.eq_ofNat_of_zero_le (Int.add_nonneg hx (shift_nonneg width offset))
  unfold placeOf
  rw [hshift, hn, barWidth_eq]
  exact congrArg Int.ofNat (Nat.mod_mul_right_div_self n _ 8)

/-- Every offset covers all columns exactly if there are fewer than eight of them, or the bars are
rounded by one column in all at most. -/
theorem forall_le_reach_iff {width : Nat} (hwidth : width < UInt32.size / 2) :
    (∀ offset, (width : Int) ≤ reach width offset) ↔ width < 8 ∨ width % 8 ≤ 1 := by
  have hsize : UInt32.size = 4294967296 := rfl
  have hbar := barWidth_eq width
  constructor
  · intro h
    -- The offset that shifts the bars by one column less than the eight of them.
    have hlast : shift width (.ofInt (barWidth width * 8 - 1)) = barWidth width * 8 - 1 := by
      have htoInt : (Int32.ofInt (barWidth width * 8 - 1)).toInt = barWidth width * 8 - 1 :=
        Int32.toInt_ofInt_of_le (by omega) (by omega)
      show (Int32.ofInt _).toInt % _ = _
      rw [htoInt]
      exact Int.emod_eq_of_lt (by omega) (by omega)
    have hreach := h (.ofInt (barWidth width * 8 - 1))
    unfold reach columnOf at hreach
    omega
  · intro h offset
    have := shift_lt width offset
    unfold reach columnOf
    omega

/-! ## Painting -/

/-- Bar `i` and its copy. -/
def paintBar (width height : Nat) (offset : Int32) (i : Nat) (color : Color) (c : Canvas) : Canvas :=
  ((c.setColor color).rect (columnOf width offset i) 0 (barWidth width) height).rect
    (columnOf width offset (i + 8)) 0 (barWidth width) height

/-- The bars from position `i` on. -/
def paintBars (width height : Nat) (offset : Int32) (i : Nat) : List Color → Canvas → Canvas
  | [], c => c
  | color :: rest, c =>
    paintBars width height offset (i + 1) rest (paintBar width height offset i color c)

section Painting

variable {width height : Nat} {offset : Int32}

theorem width_paintBar (i : Nat) (color : Color) (c : Canvas) :
    (paintBar width height offset i color c).width = c.width :=
  (Frame.width_updateRect ..).trans (Frame.width_updateRect ..)

theorem height_paintBar (i : Nat) (color : Color) (c : Canvas) :
    (paintBar width height offset i color c).height = c.height :=
  (Frame.height_updateRect ..).trans (Frame.height_updateRect ..)

theorem size_paintBars (i : Nat) (colors : List Color) (c : Canvas) :
    (paintBars width height offset i colors c).width = c.width ∧
      (paintBars width height offset i colors c).height = c.height ∧
      (paintBars width height offset i colors c).pen.blend = c.pen.blend := by
  induction colors generalizing i c with
  | nil => exact ⟨rfl, rfl, rfl⟩
  | cons color rest ih =>
    obtain ⟨hwidth, hheight, hblend⟩ := ih (i + 1) (paintBar width height offset i color c)
    exact ⟨hwidth.trans (width_paintBar ..), hheight.trans (height_paintBar ..), hblend⟩

/-- A bar in a pen that copies covers its own columns and those of its copy. -/
theorem get?_paintBar {c : Canvas} (hcopy : c.pen.blend = .copy) (i : Nat) (color : Color)
    {x y : Int} (hy : 0 ≤ y ∧ y < height) :
    (paintBar width height offset i color c).get? x y = (c.get? x y).map fun under =>
      if placeOf width offset x = i ∨ placeOf width offset x = (i + 8 : Nat) then color
      else under := by
  have hpen : ((c.setColor color).pen.apply : Color → Color) = fun _ => color := by
    funext under
    show Pen.apply ⟨color, c.pen.blend⟩ under = color
    rw [hcopy, Pen.apply_copy]
  have hrow : 0 ≤ y ∧ y < 0 + (height : Int) := by omega
  have hcovered : ∀ j, (columnOf width offset j ≤ x ∧
      x < columnOf width offset j + barWidth width ∧ 0 ≤ y ∧ y < 0 + (height : Int)) ↔
        placeOf width offset x = (j : Nat) := by
    intro j
    rw [← and_assoc, and_iff_left hrow]
    exact columnOf_le_and_lt_iff
  have hkeep : (c.setColor color).get? x y = c.get? x y := rfl
  unfold paintBar
  rw [Canvas.get?_rect, Canvas.get?_rect, Canvas.pen_rect, hpen, hkeep]
  simp only [hcovered]
  -- A column lies under the bar, under its copy or under neither, as the two do not overlap.
  by_cases hfirst : placeOf width offset x = i
  · have hsecond : ¬ placeOf width offset x = (i + 8 : Nat) := by omega
    rw [if_neg hsecond, if_pos hfirst]
    simp only [if_pos (Or.inl hfirst)]
  · by_cases hsecond : placeOf width offset x = (i + 8 : Nat)
    · rw [if_pos hsecond, if_neg hfirst]
      simp only [if_pos (Or.inr hsecond)]
    · rw [if_neg hsecond, if_neg hfirst]
      simp only [if_neg (not_or.2 ⟨hfirst, hsecond⟩), Option.map_id']

/-- What the bars from position `i` on make of a color at a place. -/
def painted (i : Nat) (colors : List Color) (place : Nat) (under : Color) : Color :=
  if place < 16 ∧ i ≤ place % 8 then colors.getD (place % 8 - i) under else under

theorem painted_cons {i : Nat} (hi : i < 8) (color : Color) (rest : List Color) (place : Nat)
    (under : Color) :
    painted (i + 1) rest place (if place = i ∨ place = i + 8 then color else under) =
      painted i (color :: rest) place under := by
  unfold painted
  by_cases hthis : place = i ∨ place = i + 8
  -- Under this bar there is none of the others.
  · have hlater : ¬ (place < 16 ∧ i + 1 ≤ place % 8) := by omega
    have hplace : place < 16 ∧ i ≤ place % 8 := by omega
    have hzero : place % 8 - i = 0 := by omega
    rw [if_neg hlater, if_pos hthis, if_pos hplace, hzero, List.getD_cons_zero]
  · rw [if_neg hthis]
    by_cases hlater : place < 16 ∧ i + 1 ≤ place % 8
    · have hplace : place < 16 ∧ i ≤ place % 8 := by omega
      have hsucc : place % 8 - i = place % 8 - (i + 1) + 1 := by omega
      rw [if_pos hlater, if_pos hplace, hsucc, List.getD_cons_succ]
    · have hplace : ¬ (place < 16 ∧ i ≤ place % 8) := by omega
      rw [if_neg hlater, if_neg hplace]

/-- The color of every point after the bars from position `i` on. -/
theorem get?_paintBars {c : Canvas} (hcopy : c.pen.blend = .copy) {i : Nat} {colors : List Color}
    (hlen : i + colors.length ≤ 8) {x y : Int} (hy : 0 ≤ y ∧ y < height) {place : Nat}
    (hplace : placeOf width offset x = place) :
    (paintBars width height offset i colors c).get? x y =
      (c.get? x y).map (painted i colors place) := by
  induction colors generalizing i c with
  | nil =>
    have hid : painted i [] place = id := by
      funext under
      unfold painted
      split <;> rfl
    rw [hid, Option.map_id]
    rfl
  | cons color rest ih =>
    rw [List.length_cons] at hlen
    have hrest := ih (c := paintBar width height offset i color c) hcopy (i := i + 1) (by omega)
    rw [paintBars, hrest, get?_paintBar hcopy i color hy, hplace, Option.map_map]
    congr 1
    funext under
    simp only [Function.comp_apply, Int.natCast_inj]
    exact painted_cons (by omega) color rest place under

end Painting

/-! ## Drawing -/

theorem columnOf_le_columnOf (width : Nat) (offset : Int32) {i j : Nat} (h : i ≤ j) :
    columnOf width offset i ≤ columnOf width offset j := by
  obtain ⟨k, rfl⟩ := Nat.exists_eq_add_of_le h
  rw [columnOf_add]
  exact Int.le_add_of_nonneg_right
    (Int.mul_nonneg (Int.natCast_nonneg k) (Int.le_of_lt (barWidth_pos width)))

/-- The copies start right of column 0, so only the greatest word limits them. -/
theorem fits_columnOf_add_eight_iff {width : Nat} {offset : Int32} {i : Nat} :
    Word32.Fits (columnOf width offset (i + 8)) ↔
      columnOf width offset (i + 8) ≤ Word32.greatest := by
  have hshift := shift_lt width offset
  have hle := columnOf_le_columnOf width offset (Nat.le_add_left 8 i)
  refine and_iff_right_of_imp fun _ => ?_
  unfold Word32.least
  unfold columnOf at hle ⊢
  omega

/-- Where the copy of a bar goes. -/
theorem add_columnOf (width : Nat) (offset : Int32) (i : Nat) :
    Word32.add (i * barWidth width - shift width offset) (barWidth width * 8) =
      if columnOf width offset (i + 8) ≤ Word32.greatest then .ok (columnOf width offset (i + 8))
      else .error (.overflow .add) := by
  have hcopy : columnOf width offset i + barWidth width * 8 = columnOf width offset (i + 8) := by
    rw [columnOf_add, Int.mul_comm]
    rfl
  show Word32.checked .add (columnOf width offset i + _) = _
  rw [hcopy]
  exact if_congr fits_columnOf_add_eight_iff rfl rfl

section Drawing

variable {width height : Nat} {offset : Int32}

theorem start_drawBar_of_le {i : Nat} (h : columnOf width offset (i + 8) ≤ Word32.greatest)
    (color : Color) (s : Scene σ) :
    (drawBar width height offset i color).start s =
      (.ok (), { s with canvas := paintBar width height offset i color s.canvas }) := by
  have hadd := add_columnOf width offset i
  rw [if_pos h] at hadd
  unfold drawBar
  simp only [hadd]
  rw [Step.start_bind_of_ok (Scene.start_draw_modify _ s),
    Step.start_bind_of_ok (Step.start_ofExcept_ok _ _)]
  rfl

theorem start_drawBar_of_gt {i : Nat} (h : Word32.greatest < columnOf width offset (i + 8))
    (color : Color) (s : Scene σ) :
    ((drawBar width height offset i color).start s).1 = .error (.panic (.overflow .add)) := by
  have hadd := add_columnOf width offset i
  rw [if_neg (Int.not_le.2 h)] at hadd
  unfold drawBar
  simp only [hadd]
  rw [Step.start_bind_of_ok (Scene.start_draw_modify _ s),
    Step.start_bind_of_error (Step.start_ofExcept_error _ _)]

/-- If the copy of the last bar starts at a signed 32-bit column, all bars are painted. -/
theorem start_drawBars_of_le {i : Nat} {colors : List Color}
    (h : columnOf width offset (i + colors.length + 7) ≤ Word32.greatest) (s : Scene σ) :
    (drawBars width height offset i colors).start s =
      (.ok (), { s with canvas := paintBars width height offset i colors s.canvas }) := by
  induction colors generalizing i s with
  | nil => rfl
  | cons color rest ih =>
    rw [List.length_cons] at h
    have hthis : columnOf width offset (i + 8) ≤ Word32.greatest :=
      Int.le_trans (columnOf_le_columnOf width offset (by omega)) h
    have hrest : columnOf width offset (i + 1 + rest.length + 7) ≤ Word32.greatest := by
      rwa [Nat.add_right_comm i 1, Nat.add_assoc i]
    rw [drawBars, Step.start_bind, start_drawBar_of_le hthis]
    exact ih hrest _

/-- If it starts further to the right, the drawing stops there at the latest. -/
theorem start_drawBars_of_gt {i : Nat} {colors : List Color} (hcolors : colors ≠ [])
    (h : Word32.greatest < columnOf width offset (i + colors.length + 7)) (s : Scene σ) :
    ((drawBars width height offset i colors).start s).1 = .error (.panic (.overflow .add)) := by
  induction colors generalizing i s with
  | nil => exact absurd rfl hcolors
  | cons color rest ih =>
    rw [List.length_cons] at h
    rw [drawBars]
    by_cases hthis : columnOf width offset (i + 8) ≤ Word32.greatest
    -- This copy has room, so it is not the last one.
    · have hrest : rest ≠ [] := by
        rintro rfl
        exact absurd hthis (Int.not_le.2 h)
      rw [Step.start_bind, start_drawBar_of_le hthis]
      refine ih hrest ?_ _
      rwa [Nat.add_right_comm i 1, Nat.add_assoc i]
    · exact Step.fst_start_bind_of_error (start_drawBar_of_gt (Int.not_le.1 hthis) color s) _

end Drawing

/-! ## The top rows -/

/-- What the darkened top rows with the list of the held buttons make of a color at a point. -/
def topped (held : List Button) (x y : Int) (color : Color) : Color :=
  if y < 14 then
    if (x - 3, y - 2) ∈ mask (heldText held).toList none then .white
    else Color.onto ⟨0, 0, 0, 160⟩ color
  else color

theorem newline_not_mem_name (button : Button) : '\n' ∉ button.name.toList := by
  cases button <;> decide

theorem newline_not_mem_heldText (held : List Button) : '\n' ∉ (heldText held).toList := by
  have hnames : '\n' ∉ [' '].intercalate (held.map fun button => button.name.toList) := by
    induction held with
    | nil => exact List.not_mem_nil
    | cons button rest ih =>
      cases rest with
      | nil => simpa using newline_not_mem_name button
      | cons next others =>
        simp only [List.map_cons, List.intercalate_cons_cons, List.mem_append, List.mem_singleton,
          not_or] at ih ⊢
        exact ⟨⟨newline_not_mem_name button, by decide⟩, ih⟩
  refine Text.newline_not_mem_append (by decide) ?_
  rw [String.toList_intercalate, List.map_map]
  exact hnames

/-- The list of the held buttons is a single line, which ends above row 14. -/
theorem lt_of_mem_mask_heldText {held : List Button} {x y : Int}
    (h : (x - 3, y - 2) ∈ mask (heldText held).toList none) : y < 12 := by
  have hrow := (Text.lt_cellHeight_of_mem_mask (newline_not_mem_heldText held) h).2
  unfold Text.cellHeight at hrow
  omega

/-- A canvas with the darkened top rows and the list of the held buttons over it. -/
def withHeld (held : List Button) (c : Canvas) : Canvas :=
  (((c.setBlend .alpha).setColor ⟨0, 0, 0, 160⟩).rect 0 0 c.width 14 |>.setColor .white).withText
    (heldText held).toList 3 2 none

/-- The list is a single line, whose drawing does not stop. -/
theorem start_drawHeld (held : List Button) (c : Canvas) :
    (drawHeld held).start c = (.ok (), withHeld held c) := by
  rw [drawHeld, Step.start_bind_of_ok (Step.start_modify _ c)]
  exact Canvas.start_write_of_newline_not_mem _ (newline_not_mem_heldText held) 3 (by decide)

/-- The points after the top rows have been drawn. -/
theorem get?_withHeld (held : List Button) (c : Canvas) (x y : Int) :
    (withHeld held c).get? x y = (c.get? x y).map (topped held x y) := by
  let dark : Canvas :=
    ((c.setBlend .alpha).setColor ⟨0, 0, 0, 160⟩).rect 0 0 c.width 14
  have hdark : dark.get? x y = if 0 ≤ x ∧ x < 0 + (c.width : Int) ∧ 0 ≤ y ∧ y < 0 + 14 then
      (c.get? x y).map (Color.onto ⟨0, 0, 0, 160⟩) else c.get? x y := Canvas.get?_rect ..
  have htext : (withHeld held c).get? x y =
      if (x - 3, y - 2) ∈ mask (heldText held).toList none then
        (dark.get? x y).map (Color.onto .white) else dark.get? x y := Canvas.get?_withText ..
  rw [htext, hdark]
  cases hcolor : c.get? x y with
  | none => simp
  | some color =>
    obtain ⟨hx, hy, hxw, -⟩ : c.frame.Contains x y :=
      Frame.isSome_get?_iff.1 (Option.isSome_iff_exists.2 ⟨color, hcolor⟩)
    have hwidth : x < 0 + (c.width : Int) := by
      rw [Int.zero_add]
      exact hxw
    by_cases hrow : y < 14
    · have htop : y < 0 + 14 := by omega
      unfold topped
      simp only [hx, hwidth, hy, htop, hrow, and_self, if_true, Option.map_some]
      split <;> rfl
    -- The list of the buttons is within the darkened rows.
    · have htop : ¬ y < 0 + 14 := by omega
      have hmask : (x - 3, y - 2) ∉ mask (heldText held).toList none := fun h =>
        absurd (lt_of_mem_mask_heldText h) (by omega)
      rw [if_neg hmask, if_neg fun h => htop h.2.2.2, Option.map_some, topped, if_neg hrow]

/-! ## A draw -/

/-- The color that a draw gives a point below the top rows: up to `reach` that of the bar there, and
from there on the one that it had. -/
def barred (s : Scene Bars) (x y : Int) : Option Color :=
  let width := s.canvas.width
  let bar := barWidth width
  if x < reach width s.app.offset then
    palette[((x + s.app.offset.toInt) % (bar * 8) / bar).toNat]?
  else s.canvas.get? x y

/-- The canvas after all bars. -/
theorem get?_paintBars_palette {s : Scene Bars} {x y : Int} (hin : s.canvas.frame.Contains x y) :
    (paintBars s.canvas.width s.canvas.height s.app.offset 0 palette
      (s.canvas.setBlend .copy)).get? x y = barred s x y := by
  obtain ⟨color, hcolor⟩ := Option.isSome_iff_exists.1 (Frame.isSome_get?_iff.2 hin)
  obtain ⟨hx, hy, -, hheight⟩ := hin
  have hnonneg := placeOf_nonneg s.canvas.width s.app.offset hx
  obtain ⟨place, hplace⟩ := Int.eq_ofNat_of_zero_le hnonneg
  have hrow : 0 ≤ y ∧ y < (s.canvas.height : Int) := ⟨hy, hheight⟩
  have hlength : 0 + palette.length ≤ 8 := by decide
  have hpaint := get?_paintBars (c := s.canvas.setBlend .copy) rfl hlength hrow hplace
  have hkeep : (s.canvas.setBlend .copy).get? x y = some color := hcolor
  have hcolumn : ((x + s.app.offset.toInt) % (barWidth s.canvas.width * 8) /
      barWidth s.canvas.width).toNat = place % 8 := by
    rw [emod_ediv_eq_placeOf_emod hx, hplace]
    rfl
  rw [hpaint, hkeep, Option.map_some, painted, barred, hcolumn, if_congr lt_reach_iff rfl rfl,
    hplace]
  by_cases hlt : place < 16
  · have hcovered : place < 16 ∧ 0 ≤ place % 8 := ⟨hlt, Nat.zero_le _⟩
    have hlength : place % 8 < palette.length := Nat.mod_lt _ (by decide)
    have hreach : (place : Int) < 16 := by omega
    rw [if_pos hcovered, if_pos hreach, Nat.sub_zero, List.getD_eq_getElem?_getD,
      List.getElem?_eq_getElem hlength, Option.getD_some]
  · have hreach : ¬ (place : Int) < 16 := by omega
    rw [if_neg fun h => hlt h.1, if_neg hreach]
    exact hcolor.symm

/-- What a draw leaves if it does not stop. -/
def repainted (s : Scene Bars) : Canvas :=
  withHeld s.app.held (paintBars s.canvas.width s.canvas.height s.app.offset 0 palette
    (s.canvas.setBlend .copy))

/-- A draw goes over the old contents in a pen that copies. -/
theorem start_draw (s : Scene Bars) (b : Board) (tick : UInt32) :
    (app.draw b tick).start s =
      (drawBars s.canvas.width s.canvas.height s.app.offset 0 palette >>= fun _ =>
        Scene.draw (drawHeld s.app.held)).start { s with canvas := s.canvas.setBlend .copy } := by
  unfold app
  simp only
  rw [Step.start_bind_of_ok (Step.start_get s),
    Step.start_bind_of_ok (Scene.start_draw_modify _ s)]

theorem start_draw_of_le {s : Scene Bars}
    (h : columnOf s.canvas.width s.app.offset 15 ≤ Word32.greatest) (b : Board) (tick : UInt32) :
    (app.draw b tick).start s = (.ok (), { s with canvas := repainted s }) := by
  have hlast : columnOf s.canvas.width s.app.offset (0 + palette.length + 7) ≤
      Word32.greatest := h
  rw [start_draw, Step.start_bind_of_ok (start_drawBars_of_le hlast _), Scene.draw, Step.start_on,
    start_drawHeld]
  rfl

theorem start_draw_of_gt {s : Scene Bars}
    (h : Word32.greatest < columnOf s.canvas.width s.app.offset 15) (b : Board) (tick : UInt32) :
    ((app.draw b tick).start s).1 = .error (.panic (.overflow .add)) := by
  have hcolors : palette ≠ [] := by decide
  rw [start_draw]
  exact Step.fst_start_bind_of_error (start_drawBars_of_gt hcolors h _) _

/-- A draw stops exactly if the copy of the last bar starts beyond the signed 32-bit columns, and
before anything is shown. Else it gives every point in the columns up to `reach` a color that
depends on the offset and the size of the canvas alone, and leaves the points from there on; in the
top rows all colors are darkened below the list of the held buttons. No column is left whatever the
offset is exactly if the canvas has fewer than eight columns, or one at most more than eight bars
have. -/
theorem draw_repaints_up_to_reach (s : Scene Bars) (b : Board) (tick : UInt32) :
    let width := s.canvas.width
    let bar := barWidth width
    (reach width s.app.offset - bar ≤ Word32.greatest →
      ∃ c, (app.draw b tick).start s = (.ok (), { s with canvas := c }) ∧
        c.width = width ∧ c.height = s.canvas.height ∧
        ∀ x y, s.canvas.frame.Contains x y →
          c.get? x y = (barred s x y).map (topped s.app.held x y) ∧
          (14 ≤ y → x < reach width s.app.offset →
            c.get? x y = palette[((x + s.app.offset.toInt) % (bar * 8) / bar).toNat]?) ∧
          (14 ≤ y → reach width s.app.offset ≤ x → c.get? x y = s.canvas.get? x y)) ∧
    (Word32.greatest < reach width s.app.offset - bar →
      ((app.draw b tick).start s).1 = .error (.panic (.overflow .add))) ∧
    (width < UInt32.size / 2 →
      ((∀ offset, (width : Int) ≤ reach width offset) ↔ width < 8 ∨ width % 8 ≤ 1)) := by
  intro width bar
  have hlast : reach width s.app.offset - bar = columnOf width s.app.offset 15 := by
    unfold reach bar
    rw [columnOf_add width s.app.offset 15 1]
    omega
  rw [hlast]
  refine ⟨fun h => ⟨repainted s, start_draw_of_le h b tick, ?_, ?_, fun x y hin => ?_⟩,
    fun h => start_draw_of_gt h b tick, forall_le_reach_iff⟩
  -- Neither the bars nor the top rows change the size.
  · exact (Canvas.width_plot ..).trans
      ((Frame.width_updateRect ..).trans (size_paintBars 0 palette _).1)
  · exact (Canvas.height_plot ..).trans
      ((Frame.height_updateRect ..).trans (size_paintBars 0 palette _).2.1)
  · have hpoint : (repainted s).get? x y = (barred s x y).map (topped s.app.held x y) := by
      rw [repainted, get?_withHeld, get?_paintBars_palette hin]
    -- Below the top rows a color stays as it is.
    have hbelow : 14 ≤ y → topped s.app.held x y = id := fun hy => by
      funext color
      exact if_neg (Int.not_lt.2 hy)
    refine ⟨hpoint, fun hy hx => ?_, fun hy hx => ?_⟩
    · rw [hpoint, hbelow hy, Option.map_id]
      exact if_pos hx
    · rw [hpoint, hbelow hy, Option.map_id]
      exact if_neg (Int.not_lt.2 hx)

/-- Two frames after the start, on a canvas of fifteen columns, the last column below the top rows
still shows what it did before, while the color of the first bar belongs there. -/
theorem last_column_left :
    let s : Scene Bars := ⟨⟨⟨2, []⟩, .initial, #[]⟩, ⟨.filled 15 16 .black, .initial⟩⟩
    palette[((14 + s.app.offset.toInt) % (barWidth s.canvas.width * 8) /
        barWidth s.canvas.width).toNat]? = some .white ∧
      ∃ c, (app.draw default 0).start s = (.ok (), { s with canvas := c }) ∧
        c.get? 14 15 = some .black := by
  intro s
  obtain ⟨hdraw, -, -⟩ := draw_repaints_up_to_reach s default 0
  obtain ⟨c, hc, -, -, hpoint⟩ := hdraw (by decide)
  obtain ⟨-, -, hleft⟩ := hpoint 14 15 (by decide)
  exact ⟨by decide, c, hc, (hleft (by decide) (by decide)).trans (by decide +kernel)⟩

end Handheld.Demo.Bars
