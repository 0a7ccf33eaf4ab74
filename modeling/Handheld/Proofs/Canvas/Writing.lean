import Handheld.Proofs.Canvas.Dots
import Handheld.Proofs.Text.Mask
import Handheld.Proofs.Text.Wrapping

/-!
# Text on a canvas

A text changes the points of its mask, each once, wherever it is drawn. It can be drawn if it has no
more lines than a signed word can count rows for, and stops at the first line too many.

* `get?_withText`: the color of every point after a text.
* `get?_withText_of_stores`: after a text in a color that covers what is below.
* `start_write`: drawing line by line and character by character gives the text.
* `fst_start_write`: how the drawing ends, for every text.
* `drawable_of_length_lt`, `start_write_of_newline_not_mem`: short texts and single lines.
* `text_blends_mask_once`: all of it for every text, with the mask within the measured size.
-/

namespace Handheld

/-- The most lines that a text can be drawn with: the last is the last whose rows below the first
line are counted by a signed word. -/
def Text.lineLimit : Nat := 214748365

/-- The text has no more lines than can be drawn. -/
def Text.Drawable (text : List Char) (wrap : Option Int) : Prop :=
  (lines text wrap).length ≤ lineLimit

instance (text : List Char) (wrap : Option Int) : Decidable (Text.Drawable text wrap) :=
  inferInstanceAs (Decidable (_ ≤ _))

namespace Canvas

open Text (Line Drawable cellWidth cellHeight drawn extent ink inkOf inkOfRun inkOfLines lineLimit
  lines mask measure Marked)

/-- The canvas with a text in the pen's color with its top left corner at `(x, y)`: each point of ink
once, and nothing else. -/
def withText (c : Canvas) (text : List Char) (x y : Int) (wrap : Option Int) : Canvas :=
  c.drawInk x y (ink text wrap)

theorem mem_map_ink_iff {text : List Char} {wrap : Option Int} {x y px py : Int} :
    (px, py) ∈ (ink text wrap).map (fun p => (x + (p.1 : Int), y + (p.2 : Int))) ↔
      (px - x, py - y) ∈ mask text wrap := by
  rw [List.mem_map]
  constructor
  · rintro ⟨⟨dx, dy⟩, hink, heq⟩
    obtain ⟨rfl, rfl⟩ := Prod.mk.inj heq
    have hdx : x + (dx : Int) - x = dx := by omega
    have hdy : y + (dy : Int) - y = dy := by omega
    rw [hdx, hdy]
    exact ⟨Int.natCast_nonneg dx, Int.natCast_nonneg dy, Text.mem_ink_iff.1 hink⟩
  · rintro ⟨hdx, hdy, hmarked⟩
    simp only at hdx hdy
    refine ⟨_, Text.mem_ink_iff.2 hmarked, ?_⟩
    simp only [Prod.mk.injEq]
    omega

/-- A text changes the points of its mask through the pen, and no other point. -/
theorem get?_withText (c : Canvas) (text : List Char) (x y : Int) (wrap : Option Int) (px py : Int) :
    (c.withText text x y wrap).get? px py =
      if (px - x, py - y) ∈ mask text wrap then (c.get? px py).map c.pen.apply
      else c.get? px py := by
  have hnodup : ((ink text wrap).map fun p => (x + (p.1 : Int), y + (p.2 : Int))).Nodup := by
    refine (Text.nodup_ink text wrap).map fun p q h => ?_
    simp only [Prod.mk.injEq] at h
    exact Prod.ext (by omega) (by omega)
  have hplot := get?_plot_of_nodup c c.pen.color hnodup px py
  rw [List.map_map] at hplot
  simp only [mem_map_ink_iff] at hplot
  exact hplot

/-- A text in a color that covers what is below. -/
theorem get?_withText_of_stores {c : Canvas} {color : Color}
    (h : Pen.stores ⟨color, c.pen.blend⟩ = true) (text : List Char) (x y : Int)
    (wrap : Option Int) (px py : Int) :
    ((c.setColor color).withText text x y wrap).get? px py =
      if (px - x, py - y) ∈ mask text wrap then (c.get? px py).map fun _ => color
      else c.get? px py := by
  have hpen : (c.setColor color).pen.apply = fun _ => color := funext (Pen.apply_of_stores h)
  have hkeep : (c.setColor color).get? px py = c.get? px py := rfl
  rw [get?_withText, hpen, hkeep]

/-! ## Line by line -/

theorem drawInk_append (c : Canvas) (x y : Int) (first second : List (Nat × Nat)) :
    c.drawInk x y (first ++ second) = (c.drawInk x y first).drawInk x y second := by
  simp [drawInk, plot, List.foldl_append]

/-- Ink moved within the text is ink drawn elsewhere. -/
theorem drawInk_map_add (c : Canvas) (x y : Int) (left top : Nat) (points : List (Nat × Nat)) :
    c.drawInk x y (points.map fun p => (left + p.1, top + p.2)) =
      c.drawInk (x + left) (y + top) points := by
  simp only [drawInk, List.map_map, Function.comp_def, Int.natCast_add, Int.add_assoc]

theorem drawRun_eq_drawInk (c : Canvas) (x y : Int) (left top : Nat) (line : Line) :
    c.drawRun (x + left) (y + top) line = c.drawInk x y (inkOfRun left top line) := by
  induction line generalizing c left with
  | nil => rfl
  | cons character rest ih =>
    rw [drawRun, Int.add_assoc, ← Int.natCast_add, ih, inkOfRun, drawInk_append, drawInk_map_add]

theorem lineTop_eq_ite {y : Int} {n : Nat} (h : n ≤ lineLimit) :
    lineTop y n =
      if n < lineLimit then .ok (Word32.saturatingAdd y (n * cellHeight))
      else .error (.overflow .multiply) := by
  have hcount : Word32.cast n = n := by
    refine Word32.cast_natCast_of_le ?_
    unfold lineLimit at h
    unfold Word32.greatest
    omega
  have hfits : Word32.Fits (n * cellHeight) ↔ n < lineLimit := by
    unfold Word32.Fits Word32.least Word32.greatest cellHeight lineLimit
    omega
  rw [lineTop, hcount, Word32.mul, Word32.checked]
  simp only [hfits]
  split <;> rfl

/-- From a line of the text on, while its rows are signed words. -/
theorem start_drawLines (c : Canvas) {x y : Int} {n : Nat} {ls : List Line}
    (hlimit : n + ls.length ≤ lineLimit) (hy : Word32.least ≤ y)
    (hrows : y + ((n + ls.length : Nat) : Int) * cellHeight ≤ Word32.greatest + cellHeight) :
    (drawLines x y n ls).start c =
      (.ok (), c.drawInk x y (inkOfLines (n * cellHeight) ls)) := by
  induction ls generalizing c n with
  | nil => rfl
  | cons line rest ih =>
    rw [List.length_cons] at hlimit hrows
    have htop : lineTop y n = .ok (y + ((n * cellHeight : Nat) : Int)) := by
      rw [lineTop_eq_ite (by omega), if_pos (by omega), Int.natCast_mul]
      refine congrArg _ (Word32.saturatingAdd_of_fits ?_)
      unfold Word32.Fits cellHeight at *
      omega
    have hline := drawRun_eq_drawInk c x y 0 (n * cellHeight) (drawn line)
    rw [Int.natCast_zero, Int.add_zero] at hline
    have hcount : n + 1 + rest.length = n + (rest.length + 1) := by omega
    rw [drawLines, htop, Step.start_bind_of_ok (Step.start_ofExcept_ok _ c),
      Step.start_bind_of_ok (Step.start_modify _ c), hline]
    rw [ih _ (hcount ▸ hlimit) (hcount ▸ hrows), inkOfLines, drawInk_append, Nat.succ_mul]

/-- Drawing line by line and character by character gives the text, if its lines can be drawn and
the last of them starts at a signed word. -/
theorem start_write (c : Canvas) {text : List Char} {x y : Int} {wrap : Option Int}
    (h : Drawable text wrap) (hy : Word32.least ≤ y)
    (hrows : y + (extent text wrap).2 ≤ Word32.greatest + cellHeight) :
    (write text x y wrap).start c = (.ok (), c.withText text x y wrap) := by
  have hlimit : 0 + (lines text wrap).length ≤ lineLimit := (Nat.zero_add _).symm ▸ h
  have hdraw := start_drawLines c (x := x) (n := 0) hlimit hy
  rw [Nat.zero_mul, Nat.zero_add, ← Int.natCast_mul] at hdraw
  exact hdraw hrows

/-- Near the first row all lines that can be drawn start at signed words. -/
theorem start_write_of_near_top (c : Canvas) {text : List Char} {x y : Int} {wrap : Option Int}
    (h : Drawable text wrap) (hy : Word32.least ≤ y) (htop : y ≤ 7) :
    (write text x y wrap).start c = (.ok (), c.withText text x y wrap) := by
  refine start_write c h hy ?_
  unfold Drawable lineLimit at h
  unfold extent Word32.greatest cellHeight
  omega

theorem fst_start_drawLines (c : Canvas) (x y : Int) {n : Nat} (hn : n ≤ lineLimit)
    (ls : List Line) :
    ((drawLines x y n ls).start c).1 =
      if n + ls.length ≤ lineLimit then .ok () else .error (.panic (.overflow .multiply)) := by
  induction ls generalizing c n with
  | nil =>
    rw [List.length_nil, Nat.add_zero, if_pos hn]
    rfl
  | cons line rest ih =>
    have hcount : n + 1 + rest.length = n + (line :: rest).length := by
      rw [List.length_cons]
      omega
    rw [drawLines, lineTop_eq_ite hn]
    by_cases hlt : n < lineLimit
    · rw [if_pos hlt, Step.start_bind_of_ok (Step.start_ofExcept_ok _ c),
        Step.start_bind_of_ok (Step.start_modify _ c), ih _ hlt, hcount]
    -- The limit is reached with a line left.
    · have hover : ¬ n + (line :: rest).length ≤ lineLimit := by omega
      rw [if_neg hlt, Step.start_bind_of_error (Step.start_ofExcept_error _ c), if_neg hover]

/-- The drawing of a text stops if it has too many lines, and not otherwise. -/
theorem fst_start_write (c : Canvas) (text : List Char) (x y : Int) (wrap : Option Int) :
    ((write text x y wrap).start c).1 =
      if Drawable text wrap then .ok () else .error (.panic (.overflow .multiply)) := by
  have houtcome := fst_start_drawLines c x y (Nat.zero_le lineLimit) (lines text wrap)
  rw [Nat.zero_add] at houtcome
  exact houtcome

/-- A text of fewer characters than the most lines can be drawn in every width. -/
theorem drawable_of_length_lt {text : List Char} (h : text.length < lineLimit) (wrap : Int) :
    Drawable text (some wrap) := by
  have hlines := Text.length_lines_le text wrap
  unfold Drawable
  omega

/-- A single line can be drawn. -/
theorem drawable_of_newline_not_mem {text : List Char} (h : '\n' ∉ text) : Drawable text none := by
  rw [Drawable, Text.lines_of_newline_not_mem h, List.length_singleton]
  decide

/-- Drawing a single line at a row that is a signed word gives the text. -/
theorem start_write_of_newline_not_mem (c : Canvas) {text : List Char} (h : '\n' ∉ text) (x : Int)
    {y : Int} (hy : Word32.Fits y) :
    (write text x y none).start c = (.ok (), c.withText text x y none) := by
  refine start_write c (drawable_of_newline_not_mem h) hy.1 ?_
  rw [extent, Text.lines_of_newline_not_mem h, List.length_singleton, Nat.one_mul]
  exact Int.add_le_add_right hy.2 _

/-- The points that a text changes are those of a mask that depends on the text and the width alone:
a point is in it exactly if its cell holds a character of a line with ink there. The mask stays
within the extent of the text, which is the measured size if it is made of signed words. On every
canvas and at every place each point of the mask goes through the pen once, and no other point, nor
the pen or the size of the canvas, changes. If the rows of the text are signed words, and so is
their number, that is what drawing the lines one below the other gives, each character in its own
cell. -/
theorem text_blends_mask_once (text : List Char) (wrap : Option Int) :
    ∃ mask : Set (Int × Int),
      (∀ dx dy, (dx, dy) ∈ mask ↔ 0 ≤ dx ∧ 0 ≤ dy ∧ Marked text wrap dx.toNat dy.toNat) ∧
      (∀ dx dy, (dx, dy) ∈ mask →
        (0 ≤ dx ∧ dx < (extent text wrap).1) ∧ 0 ≤ dy ∧ dy < (extent text wrap).2) ∧
      (((extent text wrap).1 : Int) ≤ Word32.greatest →
        ((extent text wrap).2 : Int) ≤ Word32.greatest →
        measure text wrap = .ok (((extent text wrap).1 : Int), ((extent text wrap).2 : Int))) ∧
      ∀ (c : Canvas) (x y : Int),
        let after := c.withText text x y wrap
        after.pen = c.pen ∧ after.width = c.width ∧ after.height = c.height ∧
          (∀ px py,
            ((px - x, py - y) ∈ mask → after.get? px py = (c.get? px py).map c.pen.apply) ∧
              ((px - x, py - y) ∉ mask → after.get? px py = c.get? px py)) ∧
          (Word32.least ≤ y → y + (extent text wrap).2 ≤ Word32.greatest + 1 →
            ((extent text wrap).2 : Int) ≤ Word32.greatest →
            (write text x y wrap).start c = (.ok (), after)) := by
  refine ⟨mask text wrap, fun dx dy => Iff.rfl, fun dx dy h => Text.lt_extent_of_mem_mask h,
    Text.measure_eq_extent,
    fun c x y => ⟨rfl, width_plot .., height_plot .., fun px py => ⟨fun h => ?_, fun h => ?_⟩,
      fun hy hrows hheight => start_write c ?_ hy ?_⟩⟩
  · rw [get?_withText, if_pos h]
  · rw [get?_withText, if_neg h]
  · unfold Text.extent cellHeight Word32.greatest at hheight
    unfold Drawable lineLimit
    omega
  · unfold cellHeight
    omega

/-- An `H` that starts one column left of the canvas: half white over black where its right stem is,
and black left of it. -/
theorem write_clipped_letter :
    let c : Canvas := ⟨.filled 4 4 .black, ⟨⟨255, 255, 255, 128⟩, .alpha⟩⟩
    measure ['H'] none = .ok (6, 10) ∧
      ∃ after, (write ['H'] (-1) 0 none).start c = (.ok (), after) ∧
        after.get? 3 1 = some (.rgb 128 128 128) ∧ after.get? 2 1 = some .black := by
  intro c
  obtain ⟨mask, hmask, -, hmeasure, hdraw⟩ := text_blends_mask_once ['H'] none
  obtain ⟨-, -, -, hpoint, hwrite⟩ := hdraw c (-1) 0
  have hstem : ((4, 1) : Int × Int) ∈ mask := (hmask 4 1).2 (by decide +kernel)
  have hgap : ((3, 1) : Int × Int) ∉ mask := fun h => absurd ((hmask 3 1).1 h) (by decide +kernel)
  exact ⟨hmeasure (by decide) (by decide), _, hwrite (by decide) (by decide) (by decide),
    ((hpoint 3 1).1 hstem).trans (by decide), ((hpoint 2 1).2 hgap).trans (by decide)⟩

end Canvas

end Handheld
