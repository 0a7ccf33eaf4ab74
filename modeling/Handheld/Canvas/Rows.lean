import Handheld.Canvas.Basic

/-!
# Drawing row by row

Rectangles and blocks as they are drawn in memory: both axes are clipped in signed 64-bit words, a
row of the clipped part is a slice of the pixels, whose bounds are unsigned 64-bit words, and the
slice is filled with one color, changed pixel by pixel or copied over. Whatever could stop the
drawing is a `Slip`.
-/

namespace Handheld

/-- What could stop the drawing of a row. -/
inductive Slip where
  /-- A result does not fit its word. -/
  | overflow
  /-- A slice is not within its memory. -/
  | bounds
  /-- A slice is copied over one of another length. -/
  | lengths
deriving DecidableEq, Repr

namespace Rows

/-! ## Words and slices -/

/-- The exact result of an operation on signed 64-bit words. -/
def signed (n : Int) : Except Slip Int :=
  if -((UInt64.size / 2 : Nat) : Int) ≤ n ∧ n < (UInt64.size / 2 : Nat) then .ok n
  else .error .overflow

/-- The exact result of an operation on addresses. -/
def address (n : Nat) : Except Slip Nat := if n < UInt64.size then .ok n else .error .overflow

/-- A signed word taken for an address: a negative one is a very high address. -/
def toAddress (n : Int) : Nat := (n % (UInt64.size : Nat)).toNat

/-- The first position and the end of the part of `[start, start + len)` in `[0, limit)`, if any. -/
def clipSpan (start len : Int) (limit : Nat) : Except Slip (Option (Nat × Nat)) :=
  if len ≤ 0 then .ok none
  else do
    let stop ← signed (start + len)
    let lo := max start 0
    let hi := min stop limit
    if hi ≤ lo then .ok none else .ok (some (toAddress lo, toAddress hi))

/-- The part of a memory from `first` up to `stop`. -/
def slice (memory : Array Color) (first stop : Nat) : Except Slip (Array Color) :=
  if first ≤ stop ∧ stop ≤ memory.size then .ok (memory.extract first stop) else .error .bounds

/-- The memory with colors stored from `first` on. -/
def storeAt (memory : Array Color) (first : Nat) (colors : Array Color) : Array Color :=
  memory.extract 0 first ++ colors ++ memory.extract (first + colors.size)

/-- Where the columns from `x0` up to `x1` of a row begin and end. -/
def rowBounds (stride row x0 x1 : Nat) : Except Slip (Nat × Nat) := do
  let start ← address (row * stride)
  let first ← address (start + x0)
  let stop ← address (start + x1)
  return (first, stop)

/-- Put the columns from `x0` up to `x1` of a row through a pen. A pen that stores fills them
without a look at what is there. -/
def paintRow (pen : Pen) (stride x0 x1 : Nat) (memory : Array Color) (row : Nat) :
    Except Slip (Array Color) := do
  let (first, stop) ← rowBounds stride row x0 x1
  let old ← slice memory first stop
  return storeAt memory first
    (if pen.stores then Array.replicate old.size pen.color else old.map pen.apply)

/-- Copy the columns from `x0` up to `x1` of a row out of a source with `w` colors to the row, which
lies with its corner at `(x, y)`. -/
def copyRow (source : Array Color) (w : Nat) (x y : Int) (stride x0 x1 : Nat)
    (memory : Array Color) (row : Nat) : Except Slip (Array Color) := do
  -- How much of the block is left of the first column copied, and above the row.
  let right ← signed (x0 - x)
  let down ← signed (row - y)
  let start ← address (toAddress down * w)
  let first' ← address (start + toAddress right)
  let (first, stop) ← rowBounds stride row x0 x1
  let old ← slice memory first stop
  let stop' ← address (first' + (x1 - x0))
  let new ← slice source first' stop'
  if old.size = new.size then return storeAt memory first new else throw .lengths

/-- Clip a rectangle to a frame and change the rows of the part that is left, from the top down,
each by `step` from its first column up to its last. -/
def update (f : Frame) (x y w h : Int)
    (step : Nat → Nat → Array Color → Nat → Except Slip (Array Color)) :
    Except Slip (Array Color) := do
  match ← clipSpan x w f.width with
  | none => return f.pixels
  | some (x0, x1) =>
    match ← clipSpan y h f.height with
    | none => return f.pixels
    | some (y0, y1) => (List.range' y0 (y1 - y0)).foldlM (step x0 x1) f.pixels

end Rows

namespace Canvas

/-- The pixels of a canvas after a filled rectangle has been drawn row by row. -/
def rectByRows (c : Canvas) (x y w h : Int) : Except Slip (Array Color) :=
  Rows.update c.frame x y w h (Rows.paintRow c.pen c.width)

/-- The pixels of a canvas after a block has been copied row by row. -/
def blitByRows (c : Canvas) (source : Array Color) (w h x y : Int) : Except Slip (Array Color) :=
  if w ≤ 0 ∨ h ≤ 0 then .ok c.frame.pixels
  else
    Rows.update c.frame x y w (blockRows source.size w h)
      (Rows.copyRow source w.toNat x y c.width)

end Canvas

end Handheld
