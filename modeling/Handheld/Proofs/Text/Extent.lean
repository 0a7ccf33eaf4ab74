import Handheld.Text.Size

/-!
# The extent of a text

The size of a text in numbers without a limit. It is what measuring the text gives as long as both
numbers are signed 32-bit words.

* `measure_eq_ok_iff`: when a text can be measured, and the size that comes out.
* `measure_eq_extent`: that size is the extent.
-/

namespace Handheld.Text

variable {text : List Char} {wrap : Option Int} {size : Int × Int}

/-- Width and height of a text in pixels, however many lines it has. -/
def extent (text : List Char) (wrap : Option Int) : Nat × Nat :=
  (widest (lines text wrap) * cellWidth, (lines text wrap).length * cellHeight)

/-- A text can be measured exactly if both products are words, and they are its size. -/
theorem measure_eq_ok_iff :
    measure text wrap = .ok size ↔
      Word32.Fits (Word32.cast (widest (lines text wrap)) * cellWidth) ∧
        Word32.Fits (Word32.cast (lines text wrap).length * cellHeight) ∧
        size = (Word32.cast (widest (lines text wrap)) * cellWidth,
          Word32.cast (lines text wrap).length * cellHeight) := by
  simp only [measure, Word32.mul, Word32.checked]
  by_cases hwidth : Word32.Fits (Word32.cast (widest (lines text wrap)) * cellWidth)
  · by_cases hheight : Word32.Fits (Word32.cast (lines text wrap).length * cellHeight)
    · simp only [hwidth, hheight, if_true, true_and]
      exact ⟨fun h => (Except.ok.inj h).symm, fun h => congrArg Except.ok h.symm⟩
    · simp only [hwidth, hheight, if_true, if_false, false_and, and_false, iff_false]
      intro h
      cases h
  · simp only [hwidth, if_false, false_and, iff_false]
    intro h
    cases h

/-- An extent of signed words is what is measured. -/
theorem measure_eq_extent (hwidth : ((extent text wrap).1 : Int) ≤ Word32.greatest)
    (hheight : ((extent text wrap).2 : Int) ≤ Word32.greatest) :
    measure text wrap = .ok (((extent text wrap).1 : Int), ((extent text wrap).2 : Int)) := by
  have hfits : ∀ n : Nat, (n : Int) ≤ Word32.greatest → Word32.Fits n := by
    intro n hn
    unfold Word32.Fits Word32.least
    omega
  have hcolumns : Word32.cast (widest (lines text wrap)) = widest (lines text wrap) := by
    refine Word32.cast_of_fits (hfits _ (Int.le_trans ?_ hwidth))
    unfold extent cellWidth
    omega
  have hrows : Word32.cast (lines text wrap).length = (lines text wrap).length := by
    refine Word32.cast_of_fits (hfits _ (Int.le_trans ?_ hheight))
    unfold extent cellHeight
    omega
  rw [measure_eq_ok_iff, hcolumns, hrows, ← Int.natCast_mul, ← Int.natCast_mul]
  exact ⟨hfits _ hwidth, hfits _ hheight, rfl⟩

end Handheld.Text
