import Handheld.Snapshot

/-!
# Screenshots

The display's copy as an image, and the files that images are written to.

* `image?_capture`: the image of a captured frame is that frame.
-/

namespace Handheld

/-- Why there is no screenshot. -/
inductive ScreenshotError where
  /-- The display has shown nothing. -/
  | nothingPresented
  /-- There are fewer pixels than the size needs. -/
  | sizeMismatch
  /-- The file could not be written. -/
  | notWritten (path : String)
deriving DecidableEq, Repr

/-- The text of the failure. -/
def ScreenshotError.message : ScreenshotError → String
  | nothingPresented => "nothing has been presented yet"
  | sizeMismatch => "frame size does not match its pixel data"
  | notWritten path => "writing screenshot to " ++ path

/-- A size of a snapshot as an unsigned 32-bit word. -/
def Snapshot.unsigned (n : Int) : Nat := (n % UInt32.size).toNat

/-- The image of a snapshot. Sizes are taken as unsigned words, and pixels past the size are left
out. -/
def Snapshot.image? (s : Snapshot) : Except ScreenshotError Frame :=
  if s.frame = 0 then .error .nothingPresented
  else
    let w := unsigned s.width
    let h := unsigned s.height
    if fits : w * h ≤ s.pixels.size then
      .ok ⟨w, h, s.pixels.extract 0 (w * h), by
        rw [Array.size_extract, Nat.sub_zero, Nat.min_eq_left fits]⟩
    else .error .sizeMismatch

/-- The images written to files, and which paths can be written. -/
structure Disk where
  /-- A file can be made at the path. -/
  writable : String → Bool
  /-- The images written, the latest first. -/
  images : List (String × Frame)

namespace Disk

/-- A disk on which nothing has been written. -/
def empty (writable : String → Bool) : Disk := ⟨writable, []⟩

/-- The image last written to a path. -/
def image? (d : Disk) (path : String) : Option Frame := d.images.lookup path

/-- Write an image. An image without pixels is refused. -/
def write (d : Disk) (path : String) (image : Frame) : Except ScreenshotError Disk :=
  if image.width = 0 ∨ image.height = 0 ∨ !d.writable path then .error (.notWritten path)
  else .ok { d with images := (path, image) :: d.images }

/-- Write the image of a snapshot. -/
def save (d : Disk) (path : String) (s : Snapshot) : Except ScreenshotError Disk := do
  d.write path (← s.image?)

/-- What has been written is what is found there. -/
theorem image?_of_write {d d' : Disk} {path : String} {image : Frame}
    (h : d.write path image = .ok d') : d'.image? path = some image := by
  unfold write at h
  split at h
  · cases h
  · cases h
    simp [image?]

end Disk

/-- The image of a captured frame is that frame. -/
theorem Snapshot.image?_capture {f : Frame} {count : UInt64} (hcount : count ≠ 0)
    (hw : f.width < UInt32.size) (hh : f.height < UInt32.size) :
    (capture f count).image? = .ok f := by
  obtain ⟨w, h, pixels, size_eq⟩ := f
  have hw' : unsigned (w : Int) = w := by
    unfold unsigned
    simp only [UInt32.size] at hw ⊢
    omega
  have hh' : unsigned (h : Int) = h := by
    unfold unsigned
    simp only [UInt32.size] at hh ⊢
    omega
  simp [image?, capture, hcount, hw', hh', ← size_eq]

end Handheld
