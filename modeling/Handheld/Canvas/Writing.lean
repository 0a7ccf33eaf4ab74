import Handheld.Canvas.Basic
import Handheld.Step
import Handheld.Text.Layout

/-!
# Writing on a canvas

A text is drawn line by line, and a line character by character, each in a cell of its own. The rows
of the lines are signed 32-bit words. One that would lie past the greatest word is held there, but
how far a line lies below the first one has to be a word itself, so a text of too many lines stops
the caller when it comes to the first of them that is too far down.
-/

namespace Handheld

/-- What is drawn of a line: one carriage return at its very end is left out. -/
def Text.drawn (line : Line) : Line :=
  if line.getLast? = some '\r' then line.dropLast else line

namespace Canvas

open Text (Line cellWidth cellHeight drawn inkOf lines)

/-- Draw ink at offsets from `(x, y)` in the pen's color. -/
def drawInk (c : Canvas) (x y : Int) (points : List (Nat × Nat)) : Canvas :=
  c.plot (points.map fun p => ⟨x + p.1, y + p.2, c.pen.color⟩)

/-- Draw characters from left to right, the first one at `(x, y)`. -/
def drawRun (c : Canvas) (x y : Int) : Line → Canvas
  | [] => c
  | character :: rest => (c.drawInk x y (inkOf character)).drawRun (x + cellWidth) y rest

/-- The topmost row of the `n`-th line of a text at row `y`. -/
def lineTop (y : Int) (n : Nat) : Except Panic Int := do
  let down ← Word32.mul (Word32.cast n) cellHeight
  return Word32.saturatingAdd y down

/-- Draw lines one below the other, of which the first is line `n` of a text at `(x, y)`. -/
def drawLines (x y : Int) (n : Nat) : List Line → Step Canvas Unit
  | [] => pure ()
  | line :: rest => do
    let top ← Step.ofExcept (lineTop y n)
    modify (·.drawRun x top (drawn line))
    drawLines x y (n + 1) rest

/-- Draw a text with its top left corner at `(x, y)` in the pen's color, broken into lines if there
is a width. -/
def write (text : List Char) (x y : Int) (wrap : Option Int) : Step Canvas Unit :=
  drawLines x y 0 (lines text wrap)

end Canvas

end Handheld
