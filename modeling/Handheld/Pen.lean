import Handheld.Color

/-!
# The pen

The color and the blend mode of the next drawing operation. `Pen.apply` says what one touched
pixel becomes; every drawing operation of a canvas is stated through it.
-/

namespace Handheld

/-- How a drawn color meets the pixel below it. -/
inductive Blend where
  /-- Store the drawn color as it is. -/
  | copy
  /-- Compose the drawn color over the pixel. -/
  | alpha
deriving DecidableEq, Repr, Inhabited

/-- The color and the blend mode that drawing uses. -/
structure Pen where
  /-- The color to draw with. -/
  color : Color
  /-- How it meets the pixel below. -/
  blend : Blend
deriving DecidableEq, Repr

namespace Pen

/-- A new pen composes opaque white. -/
def initial : Pen := ⟨.white, .alpha⟩

instance : Inhabited Pen := ⟨initial⟩

/-- The pen overwrites whatever it touches. -/
def stores (pen : Pen) : Bool := pen.blend = .copy || pen.color.a = 255

/-- What a touched pixel becomes. -/
def apply (pen : Pen) (under : Color) : Color :=
  match pen.blend with
  | .copy => pen.color
  | .alpha => pen.color.onto under

@[simp]
theorem apply_copy (c under : Color) : apply ⟨c, .copy⟩ under = c := rfl

@[simp]
theorem apply_alpha (c under : Color) : apply ⟨c, .alpha⟩ under = c.onto under := rfl

/-- A pen stores if it copies or its color is opaque. -/
theorem stores_iff {pen : Pen} : pen.stores = true ↔ pen.blend = .copy ∨ pen.color.a = 255 := by
  rw [stores, Bool.or_eq_true, decide_eq_true_iff, decide_eq_true_iff]

/-- A pen that stores leaves nothing of the pixel below. -/
theorem apply_of_stores {pen : Pen} (h : pen.stores = true) (under : Color) :
    pen.apply under = pen.color := by
  obtain ⟨color, blend⟩ := pen
  cases blend with
  | copy => rfl
  | alpha => simp_all [stores]

end Pen

end Handheld
