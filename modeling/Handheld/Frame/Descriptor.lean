import Handheld.Frame.Basic

/-!
# Descriptors of frames

A descriptor lends a frame to a reader: the size of the frame and the memory that starts with its
first pixel. How much of the memory belongs to the frame is told by the size alone, and a reader of
a point checks the size by itself.

* `pixels_descriptor`: the descriptor of a frame lends the frame's pixels, all of them.
* `get?_descriptor`: it shows every point as the frame does.
-/

namespace Handheld.Frame

/-- A frame lent for reading. -/
structure Descriptor where
  /-- Pixels in a row. -/
  width : Int
  /-- Number of rows. -/
  height : Int
  /-- The memory from the first pixel on. -/
  memory : Array Color
deriving DecidableEq

/-- Lend a frame. -/
def descriptor (f : Frame) : Descriptor := ⟨f.width, f.height, f.pixels⟩

namespace Descriptor

/-- The pixels: as many as the size needs, from the start of the memory. -/
def pixels (d : Descriptor) : Array Color := d.memory.extract 0 (d.width.toNat * d.height.toNat)

/-- The channels of all pixels, as they lie in memory. -/
def bytes (d : Descriptor) : Array UInt8 := d.pixels.flatMap Color.bytes

/-- The color of a point, `none` outside the size. -/
def get? (d : Descriptor) (x y : Int) : Option Color :=
  if x < 0 ∨ y < 0 ∨ d.width ≤ x ∨ d.height ≤ y then none
  else d.pixels[y.toNat * d.width.toNat + x.toNat]?

end Descriptor

/-- All pixels of the frame are lent, and nothing behind them. -/
@[simp]
theorem pixels_descriptor (f : Frame) : f.descriptor.pixels = f.pixels := by
  rw [Descriptor.pixels, descriptor, Int.toNat_natCast, Int.toNat_natCast, ← f.size_eq,
    Array.extract_size]

@[simp]
theorem bytes_descriptor (f : Frame) : f.descriptor.bytes = f.bytes := by
  rw [Descriptor.bytes, pixels_descriptor, bytes]

/-- A descriptor shows every point as the frame does. -/
@[simp]
theorem get?_descriptor (f : Frame) (x y : Int) : f.descriptor.get? x y = f.get? x y := by
  rw [Descriptor.get?, pixels_descriptor, Frame.get?, index?, descriptor, Int.toNat_natCast]
  -- The two bounds checks are each other's opposites.
  by_cases h : f.Contains x y
  · have hinside : ¬ (x < 0 ∨ y < 0 ∨ (f.width : Int) ≤ x ∨ (f.height : Int) ≤ y) := by
      unfold Contains at h
      omega
    rw [if_neg hinside, if_pos h, Option.bind_some]
  · have houtside : x < 0 ∨ y < 0 ∨ (f.width : Int) ≤ x ∨ (f.height : Int) ≤ y := by
      unfold Contains at h
      omega
    rw [if_pos houtside, if_neg h, Option.bind_none]

end Handheld.Frame
