import Handheld.Color
import Handheld.Core.Numbers
import Handheld.Lock.Mutex
import Handheld.Panic

/-!
# The second core's pictures

The second core renders numbered pictures without end and swaps each finished one into a shared
place under a lock; the core that runs the frames copies the latest one out.

* `size_render`: a rendered picture has as many pixels as asked for.
-/

namespace Handheld

/-- A picture in the shared place. -/
structure Picture where
  /-- The pixels row by row, none before the first picture is finished. -/
  pixels : Array Color
  /-- The number of the picture, counting from zero. -/
  number : UInt64
deriving DecidableEq

namespace Picture

/-- Pixels in a row of a picture. -/
def width : Nat := 160

/-- Rows of a picture. -/
def height : Nat := 144

/-- Pixels of a picture. -/
def size : Nat := width * height

/-- The shared place before the first picture. -/
def blank : Picture := ⟨#[], 0⟩

instance : Inhabited Picture := ⟨blank⟩

/-- The lower 32 bits of a picture's number, which its colors are shifted by. -/
def phase (number : UInt64) : Nat := number.toUInt32.toNat

/-- The color of the `i`-th pixel of a picture. -/
def color (number : UInt64) (i : Nat) : Color :=
  let x := i % width
  let y := i / width
  .rgb (UInt8.ofNat (x + phase number)) (UInt8.ofNat (y * 2))
    (UInt8.ofNat ((x ^^^ y) + phase number * 3))

/-- The first `len` pixels of a picture. Each pixel needs three times the phase in 32 bits. -/
def render (len : Nat) (number : UInt64) : Except Panic (Array Color) :=
  if 0 < len ∧ UInt32.size ≤ phase number * 3 then .error (.overflow .multiply)
  else .ok (Array.ofFn fun i : Fin len => color number i)

/-- A rendered picture has as many pixels as asked for. -/
theorem size_render {len : Nat} {number : UInt64} {pixels : Array Color}
    (h : render len number = .ok pixels) : pixels.size = len := by
  unfold render at h
  split at h
  · cases h
  · cases h
    simp

end Picture

/-- The second core's own part of its work. -/
structure Renderer where
  /-- The buffer that the next picture is rendered into. -/
  work : Array Color
  /-- The number of the next picture. -/
  next : UInt64
deriving DecidableEq

namespace Renderer

/-- The renderer before its first picture. -/
def initial : Renderer := ⟨Array.replicate Picture.size .black, 0⟩

instance : Inhabited Renderer := ⟨initial⟩

/-- Cut or fill up a buffer to the size of a picture. -/
def resized (buffer : Array Color) : Array Color :=
  buffer.extract 0 Picture.size ++ Array.replicate (Picture.size - buffer.size) .black

/-- Render one picture, swap it into the shared place under the lock, and bring the buffer that
comes back to full size. While somebody else holds the lock, nothing happens. -/
def turn (r : Renderer) (shared : Mutex Picture) : Except Panic (Renderer × Mutex Picture) :=
  match Picture.render r.work.size r.next with
  | .error p => .error p
  | .ok pixels =>
    match shared.update .second fun _ => ⟨pixels, r.next⟩ with
    | .error e => .error (.misuse e)
    | .ok none => .ok (r, shared)
    -- The swap brings back what was shared before, which at first is no picture at all.
    | .ok (some shared') => .ok (⟨resized shared.data.pixels, r.next + 1⟩, shared')

/-- A resized buffer has the size of a picture. -/
@[simp]
theorem size_resized (buffer : Array Color) : (resized buffer).size = Picture.size := by
  simp [resized]
  omega

end Renderer

end Handheld
