/-!
# Colors

Eight-bit channels with a straight (not premultiplied) alpha, and the composition of one color
over another. Each channel of a composition is the nearest integer to the exact weighted mean
(`mixed`), and the resulting coverage is the nearest integer to the exact union (`covered`).
-/

namespace Handheld

/-- One pixel value: three channels and an alpha, 255 being opaque. -/
structure Color where
  /-- Red channel. -/
  r : UInt8
  /-- Green channel. -/
  g : UInt8
  /-- Blue channel. -/
  b : UInt8
  /-- Coverage: 0 is fully transparent and 255 opaque. -/
  a : UInt8
deriving DecidableEq, Repr, Inhabited

namespace Color

/-- An opaque color. -/
def rgb (r g b : UInt8) : Color := ⟨r, g, b, 255⟩

/-- Opaque black, the fill of a new screen. -/
def black : Color := rgb 0 0 0

/-- Opaque white, the color of a new pen. -/
def white : Color := rgb 255 255 255

/-- No coverage at all. -/
def transparent : Color := ⟨0, 0, 0, 0⟩

/-- The channel value nearest to `(s * a + d * (255 - a)) / 255`. Adding 127 before the division
rounds to nearest; as 255 is odd there are no ties. -/
def mixed (s d a : Nat) : Nat := (s * a + d * (255 - a) + 127) / 255

/-- The coverage nearest to `a + da * (255 - a) / 255`. -/
def covered (a da : Nat) : Nat := a + (da * (255 - a) + 127) / 255

/-- Compose `src` over `dst` by the rounded formulas alone. -/
def blend (src dst : Color) : Color where
  r := UInt8.ofNat (mixed src.r.toNat dst.r.toNat src.a.toNat)
  g := UInt8.ofNat (mixed src.g.toNat dst.g.toNat src.a.toNat)
  b := UInt8.ofNat (mixed src.b.toNat dst.b.toNat src.a.toNat)
  a := UInt8.ofNat (covered src.a.toNat dst.a.toNat)

/-- Compose `src` over `dst`. An opaque source replaces and a transparent one changes nothing;
every other source goes through `blend`. -/
def onto (src dst : Color) : Color :=
  if src.a = 255 then src else if src.a = 0 then dst else blend src dst

/-- The channels in the order in which pixel memory holds them. -/
def bytes (c : Color) : Array UInt8 := #[c.r, c.g, c.b, c.a]

@[simp]
theorem onto_of_opaque {src : Color} (h : src.a = 255) (dst : Color) : src.onto dst = src := by
  simp [onto, h]

@[simp]
theorem onto_of_transparent {src : Color} (h : src.a = 0) (dst : Color) :
    src.onto dst = dst := by
  simp [onto, h]

/-- A weighted mean of two channel values is itself a channel value. -/
theorem mixed_le {s d a : Nat} (hs : s ≤ 255) (hd : d ≤ 255) (ha : a ≤ 255) :
    mixed s d a ≤ 255 := by
  have h : s * a + d * (255 - a) ≤ 255 * 255 := by
    calc s * a + d * (255 - a) ≤ 255 * a + 255 * (255 - a) :=
          Nat.add_le_add (Nat.mul_le_mul_right _ hs) (Nat.mul_le_mul_right _ hd)
      _ = 255 * 255 := by omega
  unfold mixed
  omega

/-- Coverage never passes opaque. -/
theorem covered_le {a da : Nat} (ha : a ≤ 255) (hd : da ≤ 255) : covered a da ≤ 255 := by
  have h : da * (255 - a) ≤ 255 * (255 - a) := Nat.mul_le_mul_right _ hd
  unfold covered
  omega

end Color

end Handheld
