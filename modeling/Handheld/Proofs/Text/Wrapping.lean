import Handheld.Proofs.Text.Extent
import Mathlib.Data.List.Forall2

/-!
# Wrapped text

What breaking a text to a width does, for every text and every width, from one word to a paragraph
to the text.

* `tidy_place`, `tidy_of_mem_packWords`: every line fits, and starts with no space.
* `letters_place`, `letters_packWords`: no character is lost, doubled or moved, spaces apart.
* `length_packWords_le`: the lines of a paragraph are no more than its characters and one.
* `wrapping_fits_and_keeps_letters`: all of it for a text with its paragraphs.
-/

namespace Handheld.Text

/-! ## The pieces of a text -/

theorem pieces_ne_nil (sep : Char) (text : List Char) : pieces sep text ≠ [] :=
  List.splitOn_ne_nil sep text

@[simp]
theorem pieces_nil (sep : Char) : pieces sep [] = [[]] := rfl

@[simp]
theorem pieces_cons_self (sep : Char) (rest : List Char) :
    pieces sep (sep :: rest) = [] :: pieces sep rest := by
  simp [pieces, List.splitOn_cons_eq_if_modifyHead]

/-- A character other than the separator is added to the first piece. -/
theorem pieces_cons_of_ne {sep c : Char} (h : c ≠ sep) (rest : List Char) :
    ∃ first others, pieces sep rest = first :: others ∧
      pieces sep (c :: rest) = (c :: first) :: others := by
  obtain ⟨first, others, heq⟩ := List.exists_cons_of_ne_nil (pieces_ne_nil sep rest)
  refine ⟨first, others, heq, ?_⟩
  unfold pieces at heq ⊢
  rw [List.splitOn_cons_eq_if_modifyHead, if_neg (by simpa using h), heq, List.modifyHead_cons]

/-- No piece holds the separator. -/
theorem not_mem_of_mem_pieces {sep : Char} {text piece : List Char} (h : piece ∈ pieces sep text) :
    sep ∉ piece := by
  induction text generalizing piece with
  | nil => simp_all
  | cons c rest ih =>
    -- A separator starts a new piece, any other character joins the first one.
    by_cases hc : c = sep
    · subst hc
      rw [pieces_cons_self, List.mem_cons] at h
      rcases h with rfl | h
      · exact List.not_mem_nil
      · exact ih h
    · obtain ⟨first, others, hrest, hcons⟩ := pieces_cons_of_ne hc rest
      rw [hcons, List.mem_cons] at h
      rcases h with rfl | h
      · have := ih (hrest ▸ List.mem_cons_self)
        simpa [Ne.symm hc] using this
      · exact ih (hrest ▸ List.mem_cons_of_mem _ h)

/-- The pieces hold everything but the separators. -/
theorem flatten_pieces (sep : Char) (text : List Char) :
    (pieces sep text).flatten = text.filter (· ≠ sep) := by
  induction text with
  | nil => rfl
  | cons c rest ih =>
    by_cases hc : c = sep
    · subst hc
      simpa using ih
    · obtain ⟨first, others, hrest, hcons⟩ := pieces_cons_of_ne hc rest
      rw [hrest] at ih
      rw [hcons, List.filter_cons_of_pos (by simpa using hc), ← ih]
      rfl

/-- The pieces and the separators between them are as long as the text. -/
theorem length_flatten_pieces (sep : Char) (text : List Char) :
    (pieces sep text).flatten.length + (pieces sep text).length = text.length + 1 := by
  induction text with
  | nil => rfl
  | cons c rest ih =>
    by_cases hc : c = sep
    · subst hc
      rw [pieces_cons_self, List.flatten_cons, List.nil_append, List.length_cons, List.length_cons,
        ← ih, Nat.add_assoc]
    · obtain ⟨first, others, hrest, hcons⟩ := pieces_cons_of_ne hc rest
      rw [hrest] at ih
      simp only [hcons, List.flatten_cons, List.length_append, List.length_cons] at ih ⊢
      omega

/-! ## One word -/

/-- The characters of a text that are not spaces. -/
def letters (text : List Char) : List Char := text.filter (· ≠ ' ')

@[simp]
theorem letters_append (first second : List Char) :
    letters (first ++ second) = letters first ++ letters second :=
  List.filter_append ..

@[simp]
theorem letters_space_cons (rest : List Char) : letters (' ' :: rest) = letters rest := by
  simp [letters]

/-- A line that fits in a number of columns and does not start with a space. -/
structure Tidy (cols : Nat) (line : Line) : Prop where
  /-- There is a column for every character. -/
  length_le : line.length ≤ cols
  /-- The first character is not a space. -/
  head_ne : line.head? ≠ some ' '

theorem tidy_nil (cols : Nat) : Tidy cols [] := ⟨Nat.zero_le _, by simp⟩

theorem tidy_of_not_mem {cols : Nat} {line : Line} (hlength : line.length ≤ cols)
    (hspace : ' ' ∉ line) : Tidy cols line :=
  ⟨hlength, fun h => hspace (List.mem_of_mem_head? h)⟩

variable {cols : Nat} {line word : Line}

/-- A piece of a word holds characters of the word. -/
theorem subset_of_mem_chop {piece : Line}
    (h : piece ∈ (chop cols word).1 ∨ piece = (chop cols word).2) : piece ⊆ word := by
  rw [← chop_flatten cols word]
  rcases h with h | rfl
  · exact fun c hc => List.mem_append_left _ (List.mem_flatten_of_mem h hc)
  · exact List.subset_append_right ..

/-- Placing a word finishes tidy lines and leaves a tidy line open. -/
theorem tidy_place (hcols : 0 < cols) (hline : Tidy cols line) (hword : ' ' ∉ word) :
    (∀ l ∈ (place cols line word).1, Tidy cols l) ∧ Tidy cols (place cols line word).2 := by
  unfold place
  split
  -- The word joins the open line, and no line is finished.
  next hfits =>
    refine ⟨by simp, ?_⟩
    unfold needed at hfits
    unfold appendWord
    cases line with
    | nil => exact tidy_of_not_mem hfits hword
    | cons c rest =>
      refine ⟨?_, hline.head_ne⟩
      simp at hfits ⊢
      omega
  -- The open line is finished if it holds anything, and the word is cut into full lines and a rest.
  next =>
    refine ⟨fun l hl => ?_, ?_⟩
    · rcases List.mem_append.1 hl with hl | hl
      · have : l = line := by
          split at hl <;> simp_all
        exact this ▸ hline
      · exact tidy_of_not_mem (Nat.le_of_eq (length_of_mem_chop hl))
          fun hc => hword (subset_of_mem_chop (.inl hl) hc)
    · exact tidy_of_not_mem (length_chop_last_le hcols word)
        fun hc => hword (subset_of_mem_chop (.inr rfl) hc)

/-- Placing a word keeps its letters after those of the open line. -/
theorem letters_place (cols : Nat) (line word : Line) :
    letters ((place cols line word).1.flatten ++ (place cols line word).2) =
      letters line ++ letters word := by
  unfold place
  split
  · cases line with
    | nil => rfl
    | cons c rest => simp only [appendWord, List.isEmpty_cons, Bool.false_eq_true, if_false,
        List.flatten_nil, List.nil_append, letters_append, letters_space_cons]
  -- An empty line is not finished, but it holds no letter either.
  · rw [List.flatten_append, List.append_assoc, chop_flatten, letters_append]
    cases line <;> simp

/-- Every piece of a word but the rest is full. -/
theorem length_eq_of_chop (cols : Nat) (word : Line) :
    word.length = (chop cols word).1.length * cols + (chop cols word).2.length := by
  conv_lhs => rw [← chop_flatten cols word]
  rw [List.length_append, List.length_flatten,
    List.map_congr_left fun piece hpiece => length_of_mem_chop hpiece]
  simp

/-- Cutting a word makes no more lines than it has characters. -/
theorem length_chop_le (hcols : 0 < cols) (word : Line) :
    (chop cols word).1.length + min 1 (chop cols word).2.length ≤ word.length := by
  have hlength := length_eq_of_chop cols word
  have : (chop cols word).1.length ≤ (chop cols word).1.length * cols :=
    Nat.le_mul_of_pos_right _ hcols
  omega

/-- Placing a word makes no more lines than the word has characters, the open line apart. -/
theorem length_place_le (hcols : 0 < cols) (line word : Line) :
    (place cols line word).1.length + min 1 (place cols line word).2.length ≤
      word.length + min 1 line.length := by
  unfold place
  split
  · cases line with
    | nil =>
      change 0 + min 1 word.length ≤ word.length + 0
      omega
    | cons c rest => simp [appendWord]
  · have := length_chop_le hcols word
    cases line with
    | nil => simpa using this
    | cons c rest =>
      simp at this ⊢
      omega

/-! ## Paragraphs -/

/-- Every line of a paragraph is tidy if the open line before it is. -/
theorem tidy_of_mem_packWords (hcols : 0 < cols) (hline : Tidy cols line) {words : List Line}
    (hwords : ∀ word ∈ words, ' ' ∉ word) : ∀ l ∈ packWords cols line words, Tidy cols l := by
  induction words generalizing line with
  | nil => simpa [packWords] using hline
  | cons word rest ih =>
    obtain ⟨hfinished, hopened⟩ := tidy_place hcols hline (hwords word List.mem_cons_self)
    intro l hl
    rcases List.mem_append.1 hl with hl | hl
    · exact hfinished l hl
    · exact ih hopened (fun w hw => hwords w (List.mem_cons_of_mem _ hw)) l hl

/-- The lines of a paragraph hold the letters of the open line and of the words, in order. -/
theorem letters_packWords (cols : Nat) (line : Line) (words : List Line) :
    letters (packWords cols line words).flatten = letters line ++ letters words.flatten := by
  induction words generalizing line with
  | nil => simp [packWords, letters]
  | cons word rest ih =>
    have hplace := letters_place cols line word
    rw [letters_append] at hplace
    -- The letters of the open line that the word leaves come before those of the other words.
    calc letters (packWords cols line (word :: rest)).flatten
        = letters (place cols line word).1.flatten ++
            letters (packWords cols (place cols line word).2 rest).flatten := by
          rw [packWords, List.flatten_append, letters_append]
      _ = letters line ++ letters (word :: rest).flatten := by
          rw [ih, ← List.append_assoc, hplace, List.flatten_cons, letters_append,
            List.append_assoc]

theorem packWords_cons (cols : Nat) (line word : Line) (rest : List Line) :
    packWords cols line (word :: rest) =
      (place cols line word).1 ++ packWords cols (place cols line word).2 rest :=
  rfl

theorem packWords_ne_nil (cols : Nat) (line : Line) (words : List Line) :
    packWords cols line words ≠ [] := by
  induction words generalizing line with
  | nil => simp [packWords]
  | cons word rest ih => exact List.append_ne_nil_of_right_ne_nil _ (ih _)

/-- The lines of a paragraph are no more than its characters and one. -/
theorem length_packWords_le (hcols : 0 < cols) (line : Line) (words : List Line) :
    (packWords cols line words).length ≤ words.flatten.length + min 1 line.length + 1 := by
  induction words generalizing line with
  | nil => simp [packWords]
  | cons word rest ih =>
    have hplace := length_place_le hcols line word
    have hrest := ih (place cols line word).2
    simp only [packWords, List.length_append, List.flatten_cons] at *
    omega

/-! ## The text -/

/-- A wider text has no fewer columns. -/
theorem columns_mono {wrap wrap' : Int} (h : wrap ≤ wrap') : columns wrap ≤ columns wrap' := by
  have hquotient : wrap.tdiv cellWidth ≤ wrap'.tdiv cellWidth := Int.tdiv_le_tdiv (by decide) h
  unfold columns
  omega

theorem lines_some (text : List Char) (wrap : Int) :
    lines text (some wrap) =
      ((pieces '\n' text).map (wrapParagraph (columns wrap))).flatten :=
  List.flatMap_def ..

/-- A paragraph keeps its letters. -/
theorem letters_wrapParagraph (cols : Nat) (paragraph : Line) :
    letters (wrapParagraph cols paragraph).flatten = letters paragraph := by
  rw [wrapParagraph, letters_packWords, flatten_pieces]
  simp [letters]

theorem length_wrapParagraph_le (hcols : 0 < cols) (paragraph : Line) :
    (wrapParagraph cols paragraph).length ≤ paragraph.length + 1 := by
  have hpack := length_packWords_le hcols [] (pieces ' ' paragraph)
  rw [flatten_pieces, List.length_nil, Nat.min_zero, Nat.add_zero] at hpack
  exact Nat.le_trans hpack (Nat.add_le_add_right (List.length_filter_le ..) 1)

/-- Wrapped lines hold what is neither a space nor a newline, in order. -/
theorem letters_lines (text : List Char) (wrap : Int) :
    letters (lines text (some wrap)).flatten = text.filter fun c => c ≠ ' ' ∧ c ≠ '\n' := by
  have hparagraphs : ∀ paragraphs : List Line,
      letters ((paragraphs.map (wrapParagraph (columns wrap))).flatten).flatten =
        letters paragraphs.flatten := by
    intro paragraphs
    induction paragraphs with
    | nil => rfl
    | cons paragraph rest ih =>
      rw [List.map_cons, List.flatten_cons, List.flatten_append, letters_append,
        letters_wrapParagraph, ih, List.flatten_cons, letters_append]
  rw [lines_some, hparagraphs, flatten_pieces, letters, List.filter_filter]
  simp

theorem tidy_of_mem_lines {text : List Char} {wrap : Int} {l : Line}
    (h : l ∈ lines text (some wrap)) : Tidy (columns wrap) l := by
  rw [lines_some, List.mem_flatten] at h
  obtain ⟨block, hblock, hl⟩ := h
  obtain ⟨paragraph, -, rfl⟩ := List.mem_map.1 hblock
  exact tidy_of_mem_packWords (columns_pos wrap) (tidy_nil _)
    (fun word hword => not_mem_of_mem_pieces hword) l hl

/-- A wrapped text has a column for every character of its longest line. -/
theorem widest_lines_le (text : List Char) (wrap : Int) :
    widest (lines text (some wrap)) ≤ columns wrap :=
  widest_le_iff.2 fun _ hline => (tidy_of_mem_lines hline).length_le

/-- A wrapped text is no wider than the width, or than a character if the width is less. -/
theorem width_extent_le (text : List Char) (wrap : Int) :
    ((extent text (some wrap)).1 : Int) ≤ max wrap 6 := by
  have hwidest := widest_lines_le text wrap
  have hcolumns : (columns wrap : Int) = max (wrap.tdiv 6) 1 := Int.toNat_of_nonneg (by omega)
  -- Six pixels a column make up the width again, or less.
  have hwidth : (columns wrap : Int) * 6 ≤ max wrap 6 := by
    rw [hcolumns]
    have := Int.tdiv_mul_le wrap (by decide : (6 : Int) ≠ 0)
    split at this <;> omega
  have hextent : ((extent text (some wrap)).1 : Int) = widest (lines text (some wrap)) * 6 := by
    simp [extent, cellWidth]
  omega

/-- In a width that is a signed word the width of a text is one too, so that only its height can
keep it from being measured. -/
theorem measure_some (text : List Char) {wrap : Int} (hwrap : wrap ≤ Word32.greatest) :
    measure text (some wrap) =
      (Word32.mul (Word32.cast (lines text (some wrap)).length) cellHeight).map fun height =>
        (((extent text (some wrap)).1 : Int), height) := by
  have hwidth := width_extent_le text wrap
  have hwidest : (widest (lines text (some wrap)) : Int) * cellWidth =
      ((extent text (some wrap)).1 : Int) := (Int.natCast_mul _ _).symm
  have hfits : Word32.Fits ((extent text (some wrap)).1 : Int) := by
    unfold Word32.Fits Word32.least
    unfold Word32.greatest at *
    omega
  have hcount : Word32.cast (widest (lines text (some wrap))) =
      widest (lines text (some wrap)) := by
    refine Word32.cast_of_fits ⟨?_, ?_⟩
    · unfold Word32.least
      omega
    · unfold Word32.Fits cellWidth at *
      omega
  have hproduct : Word32.mul (Word32.cast (widest (lines text (some wrap)))) cellWidth =
      .ok ((extent text (some wrap)).1 : Int) := by
    rw [hcount, Word32.mul, hwidest, Word32.checked_eq_ok_iff]
    exact ⟨hfits, rfl⟩
  simp only [measure, hproduct]
  cases Word32.mul (Word32.cast (lines text (some wrap)).length) cellHeight <;> rfl

/-- A wrapped line holds no newline, since the letters of a text do not. -/
theorem newline_not_mem_of_mem_lines {text : List Char} {wrap : Int} {l : Line}
    (h : l ∈ lines text (some wrap)) : '\n' ∉ l := by
  intro hc
  have hletters : '\n' ∈ letters (lines text (some wrap)).flatten :=
    List.mem_filter.2 ⟨List.mem_flatten_of_mem h hc, by decide⟩
  rw [letters_lines, List.mem_filter] at hletters
  simp at hletters

/-- Paragraphs take no more lines than they have characters, and one more each. -/
theorem length_flatten_wrapParagraph_le (hcols : 0 < cols) (paragraphs : List Line) :
    (paragraphs.map (wrapParagraph cols)).flatten.length ≤
      paragraphs.flatten.length + paragraphs.length := by
  induction paragraphs with
  | nil => exact Nat.le_refl 0
  | cons paragraph rest ih =>
    have := length_wrapParagraph_le hcols paragraph
    simp only [List.map_cons, List.flatten_cons, List.length_append, List.length_cons]
    omega

theorem length_lines_le (text : List Char) (wrap : Int) :
    (lines text (some wrap)).length ≤ text.length + 1 := by
  rw [lines_some, ← length_flatten_pieces '\n' text]
  exact length_flatten_wrapParagraph_le (columns_pos wrap) _

/-- A text is broken into a block of lines for each of its paragraphs, in order, which has a line at
least and the letters of the paragraph, and there are no more lines than characters and one. Every
line takes at most one column for each six pixels of the width, or one column if the width has less,
holds no newline and does not start with a space. All lines together hold the characters of the
text in order, apart from spaces and newlines. So the text is never wider than the width, or than a
character if the width is less, and is not measured as wider. In a width that is a signed word only
the height of a text can be too large to be measured. -/
theorem wrapping_fits_and_keeps_letters (text : List Char) (wrap : Int) :
    (∃ blocks, lines text (some wrap) = blocks.flatten ∧
        List.Forall₂ (fun paragraph block => block ≠ [] ∧ letters block.flatten = letters paragraph)
          (pieces '\n' text) blocks) ∧
      (lines text (some wrap)).length ≤ text.length + 1 ∧
      (∀ line ∈ lines text (some wrap),
        (line.length : Int) ≤ max (wrap.tdiv 6) 1 ∧ '\n' ∉ line ∧ line.head? ≠ some ' ') ∧
      letters (lines text (some wrap)).flatten = (text.filter fun c => c ≠ ' ' ∧ c ≠ '\n') ∧
      ((extent text (some wrap)).1 : Int) ≤ max wrap 6 ∧
      (∀ size, measure text (some wrap) = .ok size → size.1 ≤ max wrap 6) ∧
      (wrap ≤ Word32.greatest →
        measure text (some wrap) =
          (Word32.mul (Word32.cast (lines text (some wrap)).length) cellHeight).map fun height =>
            (((extent text (some wrap)).1 : Int), height)) := by
  have hcolumns : (columns wrap : Int) = max (wrap.tdiv 6) 1 :=
    Int.toNat_of_nonneg (by omega)
  have hwidth := width_extent_le text wrap
  refine ⟨⟨_, lines_some text wrap, ?_⟩, length_lines_le text wrap, fun line hline => ?_,
    letters_lines text wrap, hwidth, fun size hsize => ?_, measure_some text⟩
  · rw [List.forall₂_map_right_iff, List.forall₂_same]
    exact fun paragraph _ => ⟨packWords_ne_nil _ _ _, letters_wrapParagraph _ paragraph⟩
  · have htidy := tidy_of_mem_lines hline
    refine ⟨?_, newline_not_mem_of_mem_lines hline, htidy.head_ne⟩
    rw [← hcolumns]
    exact_mod_cast htidy.length_le
  -- A count cut to a word is no greater than the count.
  · obtain ⟨-, -, rfl⟩ := measure_eq_ok_iff.1 hsize
    have hcast := Word32.cast_natCast_le (widest (lines text (some wrap)))
    have hextent : ((extent text (some wrap)).1 : Int) = widest (lines text (some wrap)) * 6 := by
      simp [extent, cellWidth]
    show Word32.cast (widest (lines text (some wrap))) * 6 ≤ max wrap 6
    omega

/-- Spaces at the start go, a word longer than a line is cut, and a space that ends a full line
leaves an empty one. -/
theorem lines_of_spaced_text :
    lines "  aé cdefg\nhij ".toList (some 20) =
        ["aé".toList, "cde".toList, "fg".toList, "hij".toList, []] ∧
      "cde".toList ∈ lines "  aé cdefg\nhij ".toList (some 20) ∧
      (("cde".toList : Line).length : Int) ≤ max (Int.tdiv 20 6) 1 ∧
      measure "  aé cdefg\nhij ".toList (some 20) = .ok (18, 50) ∧ (18 : Int) ≤ max 20 6 := by
  have hlines : lines "  aé cdefg\nhij ".toList (some 20) =
      ["aé".toList, "cde".toList, "fg".toList, "hij".toList, []] := by decide +kernel
  have hmem : "cde".toList ∈ lines "  aé cdefg\nhij ".toList (some 20) := by
    rw [hlines]
    decide
  have hsize : measure "  aé cdefg\nhij ".toList (some 20) = .ok (18, 50) := by
    rw [measure_eq_ok_iff, hlines]
    decide
  obtain ⟨-, -, hline, -, -, hwidth, -⟩ :=
    wrapping_fits_and_keeps_letters "  aé cdefg\nhij ".toList 20
  exact ⟨hlines, hmem, (hline _ hmem).1, hsize, hwidth _ hsize⟩

end Handheld.Text
