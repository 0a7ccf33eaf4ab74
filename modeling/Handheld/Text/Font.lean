/-!
# The six by ten face

Every character occupies a cell six pixels wide and ten high. A glyph is the set of cells of ink in
it; characters that the face does not hold are drawn as a question mark.

* `inkOf_eq`: the table of all cells of ink says the same as the glyphs.
* `mem_inkCells`: a glyph's list of cells holds exactly its ink.
-/

namespace Handheld.Text

/-- Width of a character's cell. -/
def cellWidth : Nat := 6

/-- Height of a character's cell, and the distance from one line to the next. -/
def cellHeight : Nat := 10

/-- The first character that the face holds; the others follow in order of their code. -/
def firstCode : Nat := 0x20

/-- The glyphs from the space on. A glyph is ten bytes, the top row first; bit 5 of a byte is the
leftmost column. -/
def glyphs : Array Nat :=
  #[
    0x00000000000000000000, 0x00080808080800080000, 0x00141414000000000000,
    0x0014143e143e14140000, 0x00081c281c0a1c080000, 0x00122a1408142a240000,
    0x00102828102a241a0000, 0x00080808000000000000, 0x00040810101008040000,
    0x00100804040408100000, 0x000022143e1422000000, 0x000008083e0808000000,
    0x0000000000000c081000, 0x000000003e0000000000, 0x000000000000081c0800,
    0x00020204081020200000, 0x00081422222214080000, 0x000818280808083e0000,
    0x001c22020c10203e0000, 0x003e02040c02221c0000, 0x00040c14243e04040000,
    0x003e202c3202221c0000, 0x000c10202c32221c0000, 0x003e0204040810100000,
    0x001c22221c22221c0000, 0x001c22261a0204180000, 0x0000081c0800081c0800,
    0x0000081c08000c081000, 0x00020408100804020000, 0x0000003e003e00000000,
    0x00100804020408100000, 0x001c2204080800080000, 0x001c22262a2c201c0000,
    0x00081422223e22220000, 0x003c12121c12123c0000, 0x001c22202020221c0000,
    0x003c12121212123c0000, 0x003e20203c20203e0000, 0x003e20203c2020200000,
    0x001c22202026221c0000, 0x002222223e2222220000, 0x001c08080808081c0000,
    0x000e0404040424180000, 0x00222428302824220000, 0x002020202020203e0000,
    0x002222362a2222220000, 0x002222322a2622220000, 0x001c22222222221c0000,
    0x003c22223c2020200000, 0x001c222222222a1c0200, 0x003c22223c2824220000,
    0x001c22201c02221c0000, 0x003e0808080808080000, 0x002222222222221c0000,
    0x00222222141414080000, 0x002222222a2a36220000, 0x00222214081422220000,
    0x00222214080808080000, 0x003e02040810203e0000, 0x001c10101010101c0000,
    0x00202010080402020000, 0x001c04040404041c0000, 0x00081422000000000000,
    0x00000000000000003e00, 0x08040000000000000000, 0x0000001c021e221e0000,
    0x0020202c3222322c0000, 0x0000001c2220221c0000, 0x0002021a2622261a0000,
    0x0000001c223e201c0000, 0x000c12103c1010100000, 0x0000001e22221e02221c,
    0x0020202c322222220000, 0x000800180808081c0000, 0x0002000602020212120c,
    0x00202022243824220000, 0x001808080808081c0000, 0x000000342a2a2a220000,
    0x0000002c322222220000, 0x0000001c2222221c0000, 0x0000002c3222322c2020,
    0x0000001a2622261a0202, 0x0000002c322020200000, 0x0000001c201c023c0000,
    0x0010103c1010120c0000, 0x000000222222261a0000, 0x00000022221414080000,
    0x00000022222a2a140000, 0x00000022140814220000, 0x0000002222261a02221c,
    0x0000003e0408103e0000, 0x00060804180408060000, 0x00080808080808080000,
    0x00180408060804180000, 0x00122a24000000000000, 0x001c2204080800080000
  ]

/-- Where the glyph of a character stands, that of the question mark for one that the face does not
hold. -/
def glyphIndex (c : Char) : Nat :=
  if firstCode ≤ c.toNat ∧ c.toNat - firstCode < glyphs.size then c.toNat - firstCode
  else '?'.toNat - firstCode

/-- The glyph of a character. -/
def glyph (c : Char) : Nat := glyphs.getD (glyphIndex c) 0

/-- The byte of a row of a glyph. -/
def glyphRow (g dy : Nat) : Nat := (g >>> (8 * (cellHeight - 1 - dy))) % 256

/-- Whether a glyph has ink in column `dx` and row `dy` of its cell. -/
def hasInk (g dx dy : Nat) : Bool :=
  dx < cellWidth && dy < cellHeight && (glyphRow g dy).testBit (cellWidth - 1 - dx)

/-- The cells of ink of a glyph, row by row. -/
def inkCells (g : Nat) : List (Nat × Nat) :=
  (List.range cellHeight).flatMap fun dy =>
    let row := glyphRow g dy
    ((List.range cellWidth).filter fun dx => row.testBit (cellWidth - 1 - dx)).map
      fun dx => (dx, dy)

/-- The cells of ink of all glyphs, listed once. -/
def inkTable : Array (List (Nat × Nat)) := glyphs.map inkCells

/-- The cells of ink of a character. -/
def inkOf (c : Char) : List (Nat × Nat) := inkTable.getD (glyphIndex c) []

/-- The ink of a character is that of its glyph. -/
theorem inkOf_eq (c : Char) : inkOf c = inkCells (glyph c) := by
  simp only [inkOf, glyph, inkTable, Array.getD_eq_getD_getElem?, Array.getElem?_map]
  cases glyphs[glyphIndex c]? <;> rfl

/-- The listed cells of ink are those that have ink. -/
theorem mem_inkCells {g dx dy : Nat} : (dx, dy) ∈ inkCells g ↔ hasInk g dx dy = true := by
  unfold inkCells
  simp only [List.mem_flatMap, List.mem_map, List.mem_filter, List.mem_range, Prod.mk.injEq]
  constructor
  · rintro ⟨y, hy, x, ⟨hx, h⟩, rfl, rfl⟩
    simp [hasInk, hx, hy, h]
  · intro h
    simp only [hasInk, Bool.and_eq_true, decide_eq_true_eq] at h
    exact ⟨dy, h.1.2, dx, ⟨h.1.1, h.2⟩, rfl, rfl⟩

/-- A cell of ink lies in the character's cell. -/
theorem lt_of_mem_inkCells {g dx dy : Nat} (h : (dx, dy) ∈ inkCells g) :
    dx < cellWidth ∧ dy < cellHeight := by
  have h' := mem_inkCells.1 h
  simp only [hasInk, Bool.and_eq_true, decide_eq_true_eq] at h'
  exact h'.1

end Handheld.Text
