import Handheld.Canvas.Command

/-!
# The screen

Two frames of one size, one to draw on and one that the display shows, and the pen. The two roles
are exchanged by `flipped` and nowhere else.

* `front_flipped`, `target_flipped`: a flip exchanges the two frames.
* `front_withCanvas`: drawing does not touch the frame that is shown.
-/

namespace Handheld

/-- Two frames in their roles, and the pen. -/
structure Screen where
  /-- The frame to draw on. -/
  target : Frame
  /-- The frame handed to the display last. -/
  front : Frame
  /-- Which of the two frames is drawn on: it starts at zero and changes with every flip. -/
  targetIndex : Fin 2
  /-- The pen, which is shared by all frames. -/
  pen : Pen
deriving DecidableEq, Inhabited

namespace Screen

/-- A black screen. A negative size counts as zero. -/
def new (width height : Int) : Screen :=
  ⟨.filled width height .black, .filled width height .black, 0, .initial⟩

/-- Find the memory for a black screen. A size that cannot be addressed stops the caller. -/
def allocate (width height : Int) : Except Panic Screen :=
  if Frame.Fits width height then .ok (.new width height) else .error .capacity

/-- Columns of the screen. -/
def width (s : Screen) : Nat := s.target.width

/-- Rows of the screen. -/
def height (s : Screen) : Nat := s.target.height

/-- The frame to draw on, with the pen. -/
def canvas (s : Screen) : Canvas := ⟨s.target, s.pen⟩

/-- The screen after drawing. -/
def withCanvas (s : Screen) (c : Canvas) : Screen := { s with target := c.frame, pen := c.pen }

/-- Exchange the roles of the two frames. -/
def flipped (s : Screen) : Screen :=
  { s with target := s.front, front := s.target, targetIndex := s.targetIndex + 1 }

@[simp]
theorem front_flipped (s : Screen) : s.flipped.front = s.target := rfl

@[simp]
theorem target_flipped (s : Screen) : s.flipped.target = s.front := rfl

@[simp]
theorem targetIndex_flipped (s : Screen) : s.flipped.targetIndex = s.targetIndex + 1 := rfl

/-- Drawing does not touch the frame that is shown. -/
@[simp]
theorem front_withCanvas (s : Screen) (c : Canvas) : (s.withCanvas c).front = s.front := rfl

/-- Drawing does not exchange the frames. -/
@[simp]
theorem targetIndex_withCanvas (s : Screen) (c : Canvas) :
    (s.withCanvas c).targetIndex = s.targetIndex := rfl

end Screen

end Handheld
