/-!
# Buttons

Eight buttons, each with an input line of its own, and the 32-bit register in which a set bit means
that the button on that line is held.

* `bits_press`, `bits_release`: what a press and a release do to each line of the register.
-/

namespace Handheld

/-- The buttons of the device. -/
inductive Button where
  | up
  | down
  | left
  | right
  | a
  | b
  | x
  | y
deriving DecidableEq, Repr

namespace Button

/-- Every button, in the order in which they are listed to the user. -/
def all : List Button := [.up, .down, .left, .right, .a, .b, .x, .y]

/-- The input line of a button. -/
def line : Button → UInt32
  | up => 23
  | down => 20
  | left => 22
  | right => 21
  | a => 18
  | b => 19
  | x => 17
  | y => 16

/-- The bit of a button in the register. -/
def mask (button : Button) : UInt32 := 1 <<< button.line

/-- The name of a button on the command line. -/
def name : Button → String
  | up => "up"
  | down => "down"
  | left => "left"
  | right => "right"
  | a => "a"
  | b => "b"
  | x => "x"
  | y => "y"

/-- Two texts are equal but for the case of the letters A to Z. -/
def sameLetters (s t : String) : Bool := s.toList.map Char.toLower == t.toList.map Char.toLower

/-- The button with a name, in any case. -/
def ofName? (name : String) : Option Button := all.find? fun button => sameLetters button.name name

/-- What the user is told about a name that no button has. -/
def unknownName (name : String) : String :=
  "unknown button `" ++ name ++ "` (expected one of: " ++ ", ".intercalate (all.map Button.name) ++
    ")"

end Button

/-- The button register, or a value for it: bit `n` is set while the button on line `n` is held. -/
structure ButtonState where
  /-- The bits, known or not. -/
  bits : UInt32
deriving DecidableEq, Repr

namespace ButtonState

/-- Nothing held. -/
def empty : ButtonState := ⟨0⟩

instance : Inhabited ButtonState := ⟨empty⟩

/-- The flags of the register in the order of their lines. -/
def flags : List (String × Button) :=
  [("Y", .y), ("X", .x), ("A", .a), ("B", .b), ("DOWN", .down), ("RIGHT", .right), ("LEFT", .left),
    ("UP", .up)]

/-- The bits that belong to a button. -/
def known : UInt32 := flags.foldl (fun m f => m ||| f.2.mask) 0

/-- Drop the bits that belong to no button. -/
def truncate (s : ButtonState) : ButtonState := ⟨s.bits &&& known⟩

/-- The state, unless a bit of it belongs to no button. -/
def checked? (s : ButtonState) : Option ButtonState :=
  if s.bits &&& ~~~known = 0 then some s else none

/-- The line is a line of the register and its bit is set. -/
def isPressed (s : ButtonState) (line : UInt32) : Bool :=
  line < 32 && s.bits >>> line &&& 1 = 1

/-- The flags that are set completely. -/
def names (s : ButtonState) : List String :=
  (flags.filter fun f => s.bits &&& f.2.mask = f.2.mask).map Prod.fst

/-- The known buttons that are not held. -/
def complement (s : ButtonState) : ButtonState := ⟨~~~s.bits &&& known⟩

/-- Every known bit is set. -/
def isAll (s : ButtonState) : Bool := s.bits &&& known = known

/-- Every bit of `t` is set in `s`. -/
def contains (s t : ButtonState) : Bool := s.bits &&& t.bits = t.bits

/-- Some bit of `t` is set in `s`. -/
def intersects (s t : ButtonState) : Bool := s.bits &&& t.bits ≠ 0

/-- A number in lower-case hexadecimal. -/
def hex (n : UInt32) : String := String.ofList (Nat.toDigits 16 n.toNat)

/-- A readable form: the flags in order, then the bits that belong to no button as one number. -/
def describe (s : ButtonState) : String :=
  let rest := s.bits &&& ~~~known
  let parts := s.names ++ if rest = 0 then [] else ["0x" ++ hex rest]
  "ButtonState(" ++ (if parts.isEmpty then "0x0" else " | ".intercalate parts) ++ ")"

/-- Hold a button down. -/
def press (s : ButtonState) (button : Button) : ButtonState := ⟨s.bits ||| button.mask⟩

/-- Let a button go. -/
def release (s : ButtonState) (button : Button) : ButtonState := ⟨s.bits &&& ~~~button.mask⟩

/-- The buttons held, in the order in which they are listed to the user. -/
def held (s : ButtonState) : List Button := Button.all.filter fun button => s.isPressed button.line

/-- A press sets the bit of the button and keeps the others. -/
theorem bits_press (s : ButtonState) (button : Button) :
    (s.press button).bits = s.bits ||| button.mask := rfl

/-- A release clears the bit of the button and keeps the others. -/
theorem bits_release (s : ButtonState) (button : Button) :
    (s.release button).bits = s.bits &&& ~~~button.mask := rfl

end ButtonState

end Handheld
