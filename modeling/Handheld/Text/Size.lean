import Handheld.Number.Checked
import Handheld.Text.Layout

/-!
# The size of a text

The width of a text is that of its longest line and the height that of all its lines, computed in
signed 32-bit words. The counts of characters and of lines are cut to such words first, and a
product that is none stops the caller.

* `widest_le_iff`: a text is as wide as its longest line.
-/

namespace Handheld.Text

/-- Characters of the longest line. -/
def widest (ls : List Line) : Nat := ls.foldl (fun n l => max n l.length) 0

/-- Width and height in pixels that a text occupies when it is drawn. -/
def measure (text : List Char) (wrap : Option Int) : Except Panic (Int × Int) := do
  let ls := lines text wrap
  let width ← Word32.mul (Word32.cast (widest ls)) cellWidth
  let height ← Word32.mul (Word32.cast ls.length) cellHeight
  return (width, height)

/-- The longest line is within a limit exactly if all lines are. -/
theorem widest_le_iff {ls : List Line} {n : Nat} :
    widest ls ≤ n ↔ ∀ line ∈ ls, line.length ≤ n := by
  -- Lines that were looked at before count as well.
  have hfrom : ∀ start, ls.foldl (fun n l => max n l.length) start ≤ n ↔
      start ≤ n ∧ ∀ line ∈ ls, line.length ≤ n := by
    induction ls with
    | nil => simp
    | cons line rest ih =>
      intro start
      rw [List.foldl_cons, ih, Nat.max_le, List.forall_mem_cons, and_assoc]
  rw [widest, hfrom 0]
  exact and_iff_right (Nat.zero_le n)

end Handheld.Text
