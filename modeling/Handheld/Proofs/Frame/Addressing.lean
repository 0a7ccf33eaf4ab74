import Handheld.Frame.Descriptor
import Handheld.Proofs.Canvas.Dots
import Handheld.Snapshot

/-!
# Addresses of pixels

The points of a frame are stored row by row, each at a position of its own, and every position
belongs to a point. A canvas on the frame, its descriptor and the display's copy find the same color
there, and the same four bytes.

* `map_index?_points`: the points listed row by row are stored at the positions in order.
* `existsUnique_point`: every position belongs to exactly one point.
* `getElem?_flatMap_of_length`, `holds_bytes`: where the channels of a pixel lie in memory.
* `addressing_is_row_major`: all of it for every frame that memory is found for.
-/

namespace Handheld

/-! ## Channels in memory -/

/-- In a list of pieces of equal length a piece begins at its number times that length. -/
theorem getElem?_flatMap_of_length {α β : Type} {f : α → List β} {n : Nat}
    (hlength : ∀ a, (f a).length = n) (xs : List α) (i : Nat) {k : Nat} (hk : k < n) :
    (xs.flatMap f)[n * i + k]? = xs[i]?.bind fun a => (f a)[k]? := by
  induction xs generalizing i with
  | nil => rfl
  | cons x rest ih =>
    rw [List.flatMap_cons]
    cases i with
    | zero =>
      rw [Nat.mul_zero, Nat.zero_add, List.getElem?_append_left (by rw [hlength]; exact hk),
        List.getElem?_cons_zero, Option.bind_some]
    | succ i =>
      have hplace : n * (i + 1) + k = n + (n * i + k) := by
        rw [Nat.mul_succ]
        omega
      rw [hplace, List.getElem?_append_right (by rw [hlength]; omega), hlength,
        Nat.add_sub_cancel_left, ih, List.getElem?_cons_succ]

/-- The four channels of a color lie in memory from an offset on. -/
structure Color.Holds (bytes : Array UInt8) (offset : Nat) (c : Color) : Prop where
  /-- Red comes first. -/
  r : bytes[offset]? = some c.r
  /-- Then green. -/
  g : bytes[offset + 1]? = some c.g
  /-- Then blue. -/
  b : bytes[offset + 2]? = some c.b
  /-- Coverage comes last. -/
  a : bytes[offset + 3]? = some c.a

namespace Frame

variable {f : Frame}

/-- A channel of the `i`-th pixel lies at its own place behind four bytes for each pixel before. -/
theorem getElem?_bytes (f : Frame) (i : Nat) {k : Nat} (hk : k < 4) :
    f.bytes[4 * i + k]? = f.pixels[i]?.bind fun c => c.bytes[k]? := by
  have hlength : ∀ c : Color, c.bytes.toList.length = 4 := fun _ => rfl
  have hlist := getElem?_flatMap_of_length hlength f.pixels.toList i hk
  rw [bytes, ← Array.getElem?_toList, Array.toList_flatMap, hlist, Array.getElem?_toList]
  simp only [Array.getElem?_toList]

theorem holds_bytes {i : Nat} {c : Color} (h : f.pixels[i]? = some c) :
    c.Holds f.bytes (4 * i) where
  r := by rw [← Nat.add_zero (4 * i), getElem?_bytes f i (by decide), h]; rfl
  g := by rw [getElem?_bytes f i (by decide), h]; rfl
  b := by rw [getElem?_bytes f i (by decide), h]; rfl
  a := by rw [getElem?_bytes f i (by decide), h]; rfl

/-! ## Points and positions -/

/-- The points listed row by row are stored at the positions in order. -/
theorem map_index?_points (f : Frame) :
    ((Rect.points ⟨0, 0, f.width, f.height⟩).map fun p => f.index? p.1 p.2) =
      (List.range f.pixels.size).map some := by
  rw [Rect.points_eq_map, List.map_map, f.size_eq]
  refine List.map_congr_left fun i hi => ?_
  have hsize : i < f.pixels.size := f.size_eq ▸ List.mem_range.1 hi
  rw [Function.comp_apply, Int.zero_add, Int.zero_add, index?_of_lt_size hsize]

/-- Every position belongs to exactly one point. -/
theorem existsUnique_point {i : Nat} (hi : i < f.pixels.size) :
    ∃! p : Int × Int, f.index? p.1 p.2 = some i := by
  refine ⟨((i % f.width : Nat), (i / f.width : Nat)), index?_of_lt_size hi, ?_⟩
  intro p hpoint
  obtain ⟨hx, hy⟩ := index?_inj hpoint (index?_of_lt_size hi)
  exact Prod.ext hx hy

/-- At a stored point there is a pixel, and it is what the view shows. -/
theorem exists_color_of_index? {x y : Int} {i : Nat} (h : f.index? x y = some i) :
    ∃ c, f.get? x y = some c ∧ f.pixels[i]? = some c := by
  have hsize := index?_lt_size h
  have hpixel : f.pixels[i]? = some f.pixels[i] := Array.getElem?_eq_getElem hsize
  exact ⟨f.pixels[i], by rw [get?, h, Option.bind_some, hpixel], hpixel⟩

/-- For any size that memory is found for, and whatever the pixels hold since then. The points of
`[0, w) × [0, h)`, row by row, are stored at the positions from zero on, and these are all there
are; each belongs to one point, and no other point is stored. At every point the canvas, the
descriptor and the display's copy show one and the same color, or none where nothing is stored. The
channels lie at four times the position, both for the descriptor and for the copy, and no such
offset passes a word of 64 bits. -/
theorem addressing_is_row_major {w h : Int} {fill : Color} {made : Frame}
    (hmade : allocate w h fill = .ok made) (pixels : Array Color)
    (hpixels : pixels.size = made.pixels.size) (pen : Pen) (count : UInt64) :
    let f := made.withPixels pixels hpixels
    let canvas : Canvas := ⟨f, pen⟩
    let shown := Snapshot.capture f count
    (pixels.size = w.toNat * h.toNat ∧
        ((Rect.points ⟨0, 0, w.toNat, h.toNat⟩).map fun p => f.index? p.1 p.2) =
          (List.range pixels.size).map some ∧
        (∀ i < pixels.size, ∃! p : Int × Int, f.index? p.1 p.2 = some i) ∧
        ∀ x y, f.index? x y = none ↔ ¬ (0 ≤ x ∧ x < w ∧ 0 ≤ y ∧ y < h)) ∧
      ∀ x y, canvas.get? x y = f.descriptor.get? x y ∧
        shown.get? x y = f.descriptor.get? x y ∧
        (f.index? x y = none ↔ f.descriptor.get? x y = none) ∧
        ∀ i, f.index? x y = some i → i < pixels.size ∧ (i : Int) = y * w + x ∧
          4 * i + 3 < UInt64.size ∧
          ∃ c : Color, f.descriptor.get? x y = some c ∧ pixels[i]? = some c ∧
            c.Holds f.descriptor.bytes (4 * i) ∧ c.Holds shown.bytes (4 * i) := by
  obtain ⟨hfits, rfl⟩ := allocate_eq_ok_iff.1 hmade
  intro f canvas shown
  have hsize : pixels.size = w.toNat * h.toNat := hpixels.trans (filled w h fill).size_eq
  have hinside : ∀ x y, f.Contains x y ↔ 0 ≤ x ∧ x < w ∧ 0 ≤ y ∧ y < h := by
    intro x y
    show 0 ≤ x ∧ 0 ≤ y ∧ x < (w.toNat : Int) ∧ y < (h.toNat : Int) ↔ _
    omega
  refine ⟨⟨hsize, map_index?_points f, fun i hi => existsUnique_point hi, fun x y => ?_⟩,
    fun x y => ⟨(get?_descriptor f x y).symm, ?_, ?_, fun i hi => ?_⟩⟩
  · rw [index?_eq_none_iff, hinside]
  · rw [Snapshot.get?_capture, get?_descriptor]
  · rw [get?_descriptor, index?_eq_none_iff]
    exact (Canvas.get?_eq_none_iff (c := canvas)).symm
  · obtain ⟨hpoint, hplace⟩ := index?_eq_some_iff.1 hi
    obtain ⟨hx, hxw, hy, hyh⟩ := (hinside x y).1 hpoint
    have hlt : i < pixels.size := index?_lt_size hi
    obtain ⟨c, hcolor, hpixel⟩ := exists_color_of_index? hi
    refine ⟨hlt, ?_, ?_, c, ?_, hpixel, ?_, holds_bytes hpixel⟩
    -- Inside the frame neither the coordinates nor the width are negative.
    · rw [← hplace, Int.natCast_add, Int.natCast_mul, Int.toNat_of_nonneg hx,
        Int.toNat_of_nonneg hy]
      show y * (w.toNat : Int) + x = y * w + x
      rw [Int.toNat_of_nonneg (by omega)]
    · unfold Fits at hfits
      rw [← hsize] at hfits
      omega
    · rw [get?_descriptor, hcolor]
    · rw [bytes_descriptor]
      exact holds_bytes hpixel

/-- Three points to the row and two rows: the last point is stored at the last position, and the
point right of the first row is not the first one of the second. -/
theorem addresses_of_three_by_two :
    let pixels : Array Color := #[.black, .white, .black, .white, .black, ⟨1, 2, 3, 4⟩]
    let f := (filled 3 2 .black).withPixels pixels rfl
    allocate 3 2 .black = .ok (filled 3 2 .black) ∧ f.index? 2 1 = some 5 ∧
      f.index? 3 0 = none ∧ f.descriptor.get? 3 0 = none ∧
      f.descriptor.get? 2 1 = some ⟨1, 2, 3, 4⟩ ∧
      Color.Holds (Snapshot.capture f 7).bytes 20 ⟨1, 2, 3, 4⟩ := by
  intro pixels f
  have hmade : allocate 3 2 .black = .ok (filled 3 2 .black) := by
    rw [allocate, if_pos (by decide)]
  obtain ⟨⟨-, -, -, hnone⟩, hread⟩ :=
    addressing_is_row_major hmade pixels rfl .initial 7
  have houtside : f.index? 3 0 = none := (hnone 3 0).2 (by decide)
  have hlast : f.index? 2 1 = some 5 := rfl
  obtain ⟨-, -, hagree, -⟩ := hread 3 0
  obtain ⟨-, -, -, hstored⟩ := hread 2 1
  obtain ⟨-, -, -, c, hcolor, hpixel, -, hbytes⟩ := hstored 5 hlast
  obtain rfl : ⟨1, 2, 3, 4⟩ = c := Option.some.inj hpixel
  exact ⟨hmade, hlast, houtside, hagree.1 houtside, hcolor, hbytes⟩

end Frame

end Handheld
