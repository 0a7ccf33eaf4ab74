import Handheld.Canvas.Writing
import Handheld.Proofs.Text.Extent
import Mathlib.Data.List.Nodup
import Mathlib.Data.Set.Defs

/-!
# The points of a text

Drawing a text touches a set of points that depends on the text and the width alone, given here as
offsets from the text's top left corner: the ink of its lines, one below the other. Which points
these are is read off cell by cell: the line and the column of the cell, and the place within it.

* `mem_ink_iff`: the ink of a text is the set of its marked points.
* `nodup_ink`: no point of ink is listed twice.
* `lt_extent_of_mem_mask`: the marked points stay within the extent of the text.
* `lt_cellHeight_of_mem_mask`: those of a single line stay within the height of a character.
-/

namespace Handheld.Text

/-- The ink of a run of characters whose first cell starts at column `left` and row `top`. -/
def inkOfRun (left top : Nat) : Line → List (Nat × Nat)
  | [] => []
  | c :: rest =>
    (inkOf c).map (fun p => (left + p.1, top + p.2)) ++
      inkOfRun (left + cellWidth) top rest

/-- The ink of lines one below the other, the first one starting at row `top`. -/
def inkOfLines (top : Nat) : List Line → List (Nat × Nat)
  | [] => []
  | line :: rest => inkOfRun 0 top (drawn line) ++ inkOfLines (top + cellHeight) rest

/-- The ink of a text, as offsets from its top left corner. -/
def ink (text : List Char) (wrap : Option Int) : List (Nat × Nat) :=
  inkOfLines 0 (lines text wrap)

/-- The point at an offset from the corner of a text is marked: its cell holds a character, which
has ink at that place of the cell. -/
def Marked (text : List Char) (wrap : Option Int) (dx dy : Nat) : Prop :=
  ∃ line c, (lines text wrap)[dy / cellHeight]? = some line ∧
    (drawn line)[dx / cellWidth]? = some c ∧
    hasInk (glyph c) (dx % cellWidth) (dy % cellHeight) = true

/-- What is drawn of a line is no longer than the line. -/
theorem length_drawn_le (line : Line) : (drawn line).length ≤ line.length := by
  unfold drawn
  split <;> simp

/-! ## Membership -/

/-- The ink of a run lies in the cells of its characters. -/
theorem mem_inkOfRun {left top dx dy : Nat} {run : Line} :
    (dx, dy) ∈ inkOfRun left top run ↔
      ∃ i c a b, run[i]? = some c ∧ (a, b) ∈ inkOf c ∧ dx = left + i * cellWidth + a ∧
        dy = top + b := by
  induction run generalizing left with
  | nil => simp [inkOfRun]
  | cons c rest ih =>
    rw [inkOfRun, List.mem_append, ih]
    constructor
    · rintro (h | ⟨i, c', a, b, hi, hink, rfl, rfl⟩)
      · obtain ⟨⟨a, b⟩, hink, heq⟩ := List.mem_map.1 h
        obtain ⟨rfl, rfl⟩ := Prod.mk.inj heq
        exact ⟨0, c, a, b, rfl, hink, by simp, rfl⟩
      · exact ⟨i + 1, c', a, b, hi, hink, by rw [Nat.succ_mul]; omega, rfl⟩
    · rintro ⟨_ | i, c', a, b, hi, hink, rfl, rfl⟩
      · obtain rfl := Option.some.inj hi
        exact .inl (List.mem_map.2 ⟨(a, b), hink, by simp⟩)
      · exact .inr ⟨i, c', a, b, hi, hink, by rw [Nat.succ_mul]; omega, rfl⟩

/-- The ink of lines lies in the rows of the single lines. -/
theorem mem_inkOfLines {top dx dy : Nat} {ls : List Line} :
    (dx, dy) ∈ inkOfLines top ls ↔
      ∃ n line, ls[n]? = some line ∧
        (dx, dy) ∈ inkOfRun 0 (top + n * cellHeight) (drawn line) := by
  induction ls generalizing top with
  | nil => simp [inkOfLines]
  | cons line rest ih =>
    rw [inkOfLines, List.mem_append, ih]
    constructor
    · rintro (h | ⟨n, line', hn, h⟩)
      · exact ⟨0, line, rfl, by simpa using h⟩
      · exact ⟨n + 1, line', hn, by rwa [Nat.succ_mul, Nat.add_comm (n * _), ← Nat.add_assoc]⟩
    · rintro ⟨_ | n, line', hn, h⟩
      · obtain rfl := Option.some.inj hn
        exact .inl (by simpa using h)
      · refine .inr ⟨n, line', hn, ?_⟩
        rwa [Nat.succ_mul, Nat.add_comm (n * _), ← Nat.add_assoc] at h

theorem lt_of_mem_inkOf {c : Char} {a b : Nat} (h : (a, b) ∈ inkOf c) :
    a < cellWidth ∧ b < cellHeight :=
  lt_of_mem_inkCells (inkOf_eq c ▸ h)

/-- The ink of a text is the set of its marked points. -/
theorem mem_ink_iff {text : List Char} {wrap : Option Int} {dx dy : Nat} :
    (dx, dy) ∈ ink text wrap ↔ Marked text wrap dx dy := by
  unfold ink Marked
  rw [mem_inkOfLines]
  constructor
  · rintro ⟨n, line, hn, h⟩
    obtain ⟨i, c, a, b, hi, hink, rfl, rfl⟩ := mem_inkOfRun.1 h
    obtain ⟨ha, hb⟩ := lt_of_mem_inkOf hink
    rw [inkOf_eq, mem_inkCells] at hink
    -- Within its cell a point is found again by quotient and remainder.
    have hcolumn : (0 + i * cellWidth + a) / cellWidth = i ∧
        (0 + i * cellWidth + a) % cellWidth = a := by
      unfold cellWidth at *
      omega
    have hrow : (0 + n * cellHeight + b) / cellHeight = n ∧
        (0 + n * cellHeight + b) % cellHeight = b := by
      unfold cellHeight at *
      omega
    refine ⟨line, c, ?_, ?_, ?_⟩
    · rw [hrow.1, hn]
    · rw [hcolumn.1, hi]
    · rw [hcolumn.2, hrow.2, hink]
  · rintro ⟨line, c, hline, hc, hink⟩
    refine ⟨_, line, hline,
      mem_inkOfRun.2 ⟨_, c, dx % cellWidth, dy % cellHeight, hc, ?_, ?_, ?_⟩⟩
    · rw [inkOf_eq, mem_inkCells, hink]
    · unfold cellWidth
      omega
    · unfold cellHeight
      omega

/-- The ink stays within the extent of the text. -/
theorem lt_extent_of_mem_ink {text : List Char} {wrap : Option Int} {dx dy : Nat}
    (h : (dx, dy) ∈ ink text wrap) :
    dx < (extent text wrap).1 ∧ dy < (extent text wrap).2 := by
  obtain ⟨line, c, hline, hc, -⟩ := mem_ink_iff.1 h
  obtain ⟨hrow, -⟩ := List.getElem?_eq_some_iff.1 hline
  obtain ⟨hcolumn, -⟩ := List.getElem?_eq_some_iff.1 hc
  have hwidest := widest_le_iff.1 (Nat.le_refl (widest (lines text wrap))) line
    (List.mem_of_getElem? hline)
  have hdrawn := length_drawn_le line
  unfold extent cellWidth cellHeight at *
  simp only
  omega

instance (text : List Char) (wrap : Option Int) (dx dy : Nat) :
    Decidable (Marked text wrap dx dy) :=
  decidable_of_iff _ mem_ink_iff

/-- The offsets of the marked points of a text from its top left corner. -/
def mask (text : List Char) (wrap : Option Int) : Set (Int × Int) :=
  {p | 0 ≤ p.1 ∧ 0 ≤ p.2 ∧ Marked text wrap p.1.toNat p.2.toNat}

instance (text : List Char) (wrap : Option Int) : DecidablePred (· ∈ mask text wrap) := fun p =>
  inferInstanceAs (Decidable (0 ≤ p.1 ∧ 0 ≤ p.2 ∧ Marked text wrap p.1.toNat p.2.toNat))

/-- The mask stays within the extent of the text. -/
theorem lt_extent_of_mem_mask {text : List Char} {wrap : Option Int} {dx dy : Int}
    (h : (dx, dy) ∈ mask text wrap) :
    (0 ≤ dx ∧ dx < (extent text wrap).1) ∧ 0 ≤ dy ∧ dy < (extent text wrap).2 := by
  obtain ⟨hdx, hdy, hmarked⟩ := h
  have := lt_extent_of_mem_ink (mem_ink_iff.2 hmarked)
  simp only at this hdx hdy
  omega

/-! ## Single lines -/

/-- Without a newline and a width a text is a single line. -/
theorem lines_of_newline_not_mem {text : List Char} (h : '\n' ∉ text) :
    lines text none = [text] := by
  have hlines : ∀ line ∈ [text], '\n' ∉ line := by simpa using h
  have hsplit := List.splitOn_intercalate '\n' hlines (List.cons_ne_nil _ _)
  rwa [List.intercalate_singleton] at hsplit

/-- A number is written without a newline. -/
theorem newline_not_mem_toString (n : Nat) : '\n' ∉ (toString n).toList := by
  intro h
  rw [Nat.toString_eq_repr, Nat.toList_repr] at h
  exact absurd (Nat.isDigit_of_mem_toDigits (by decide) (by decide) h) (by decide)

/-- Strings without a newline are put together to one without. -/
theorem newline_not_mem_append {first second : String} (hfirst : '\n' ∉ first.toList)
    (hsecond : '\n' ∉ second.toList) : '\n' ∉ (first ++ second).toList := by
  rw [String.toList_append, List.mem_append, not_or]
  exact ⟨hfirst, hsecond⟩

/-- Bounds of two strings add up to a bound of the one string. -/
theorem length_append_le {first second : String} {m n : Nat} (hfirst : first.length ≤ m)
    (hsecond : second.length ≤ n) : (first ++ second).length ≤ m + n := by
  rw [String.length_append]
  exact Nat.add_le_add hfirst hsecond

/-- The marked points of a single line stay within the height of a character. -/
theorem lt_cellHeight_of_mem_mask {text : List Char} (h : '\n' ∉ text) {dx dy : Int}
    (hmem : (dx, dy) ∈ mask text none) : 0 ≤ dy ∧ dy < cellHeight := by
  have hrows := (lt_extent_of_mem_mask hmem).2
  have hheight : (extent text none).2 = cellHeight := by
    rw [extent, lines_of_newline_not_mem h, List.length_singleton, Nat.one_mul]
  rwa [hheight] at hrows

/-! ## Every point once -/

theorem nodup_inkCells (g : Nat) : (inkCells g).Nodup := by
  unfold inkCells
  refine List.nodup_flatMap.2 ⟨fun dy _ => ?_, ?_⟩
  · refine List.Nodup.map (fun a b h => (Prod.mk.inj h).1) ?_
    exact List.nodup_range.filter _
  -- Cells of different rows differ in their second component.
  · refine List.nodup_range.imp fun hne => ?_
    intro p hp hp'
    obtain ⟨_, -, rfl⟩ := List.mem_map.1 hp
    obtain ⟨_, -, heq⟩ := List.mem_map.1 hp'
    exact hne (Prod.mk.inj heq).2.symm

theorem nodup_inkOfRun (left top : Nat) (line : Line) : (inkOfRun left top line).Nodup := by
  induction line generalizing left with
  | nil => exact List.nodup_nil
  | cons c rest ih =>
    refine List.nodup_append'.2 ⟨?_, ih _, ?_⟩
    · refine List.Nodup.map (fun p q h => ?_) (inkOf_eq c ▸ nodup_inkCells _)
      obtain ⟨h1, h2⟩ := Prod.mk.inj h
      exact Prod.ext (Nat.add_left_cancel h1) (Nat.add_left_cancel h2)
    -- The characters that follow start right of the first one's cell.
    · rintro ⟨dx, dy⟩ h h'
      obtain ⟨⟨a, b⟩, hink, heq⟩ := List.mem_map.1 h
      obtain ⟨i, _, a', _, -, -, hdx, -⟩ := mem_inkOfRun.1 h'
      have := (lt_of_mem_inkOf hink).1
      have := (Prod.mk.inj heq).1
      omega

theorem nodup_inkOfLines (top : Nat) (ls : List Line) : (inkOfLines top ls).Nodup := by
  induction ls generalizing top with
  | nil => exact List.nodup_nil
  | cons line rest ih =>
    refine List.nodup_append'.2 ⟨nodup_inkOfRun .., ih _, ?_⟩
    -- The lines that follow start below the first one's cells.
    rintro ⟨dx, dy⟩ h h'
    obtain ⟨_, _, _, b, -, hink, -, hdy⟩ := mem_inkOfRun.1 h
    obtain ⟨n, _, -, hrun⟩ := mem_inkOfLines.1 h'
    obtain ⟨_, _, _, b', -, -, -, hdy'⟩ := mem_inkOfRun.1 hrun
    have := (lt_of_mem_inkOf hink).2
    omega

/-- No point of ink is listed twice. -/
theorem nodup_ink (text : List Char) (wrap : Option Int) : (ink text wrap).Nodup :=
  nodup_inkOfLines ..

end Handheld.Text
