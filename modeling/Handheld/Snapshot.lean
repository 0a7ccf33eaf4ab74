import Handheld.Frame.Basic

/-!
# What the display shows

The display keeps a copy of the last frame handed to it, with the count of frames so far.

* `get?_capture`: the copy shows every point as the frame did.
-/

namespace Handheld

/-- A copy of the last frame handed to the display. -/
structure Snapshot where
  /-- Pixels in a row. -/
  width : Int
  /-- Number of rows. -/
  height : Int
  /-- The rows, one after the other. -/
  pixels : Array Color
  /-- How many frames the display had got when this one came, counting it; zero before the first. -/
  frame : UInt64
deriving DecidableEq

namespace Snapshot

/-- The display before its first frame. -/
def blank : Snapshot := ⟨0, 0, #[], 0⟩

instance : Inhabited Snapshot := ⟨blank⟩

/-- Copy a frame that comes with its count. -/
def capture (f : Frame) (count : UInt64) : Snapshot := ⟨f.width, f.height, f.pixels, count⟩

/-- The color of a point: `none` outside the size, and where the pixels run out. -/
def get? (s : Snapshot) (x y : Int) : Option Color :=
  if 0 ≤ x ∧ 0 ≤ y ∧ x < s.width ∧ y < s.height then
    s.pixels[y.toNat * s.width.toNat + x.toNat]?
  else none

/-- The channels of all pixels, as they lie in memory. -/
def bytes (s : Snapshot) : Array UInt8 := s.pixels.flatMap Color.bytes

/-- The copy shows every point as the frame did. -/
@[simp]
theorem get?_capture (f : Frame) (count : UInt64) (x y : Int) :
    (capture f count).get? x y = f.get? x y := by
  unfold get? Frame.get? Frame.index? Frame.Contains capture
  by_cases h : 0 ≤ x ∧ 0 ≤ y ∧ x < f.width ∧ y < f.height <;> simp [h]

end Snapshot

end Handheld
