import Handheld.Proofs.Text.Breaks
import Mathlib.Algebra.Order.BigOperators.Group.List
import Mathlib.Algebra.Order.Group.Nat

/-!
# How many lines a text takes

The same words are packed into two widths, and the two runs break them at different places. They are
compared by how far each has got: by the finished lines first, and among equally many by the length
of the open line. Behind each word the run in more columns is no further than the other, although
the word may have fitted in the narrow run alone.

* `length_place_cases`: what placing a word does to the number of lines and to the open line.
* `NoFurther.place`: one word keeps the run in more columns behind.
* `NoFurther.length_packWords_le`: from it, all words.
* `wider_wraps_take_no_more_lines`: what that means for the lines and the height of a text.
-/

namespace Handheld.Text

variable {cols cols' : Nat} {line line' word : Line}

/-! ## What a word adds -/

theorem length_fst_chop (hcols : 0 < cols) (word : Line) :
    (chop cols word).1.length = cuts cols word := by
  have hpieces := congrArg List.length (map_text_fragments hcols word)
  simpa [fragments] using hpieces.symm

theorem length_snd_chop (hcols : 0 < cols) (word : Line) :
    (chop cols word).2.length = word.length - cuts cols word * cols := by
  have hlength := length_eq_of_chop cols word
  rw [length_fst_chop hcols] at hlength
  omega

theorem needed_cases (line word : Line) :
    line.length = 0 ∧ needed line word = word.length ∨
      0 < line.length ∧ needed line word = line.length + 1 + word.length := by
  cases line with
  | nil => exact .inl ⟨rfl, rfl⟩
  | cons c rest => exact .inr ⟨Nat.succ_pos _, rfl⟩

/-- A word that fits makes the open line longer and finishes none. Any other finishes the open line,
if it has a character, and one more line with each cut, and leaves the rest of the word open. -/
theorem length_place_cases (hcols : 0 < cols) (line word : Line) :
    needed line word ≤ cols ∧ (place cols line word).1.length = 0 ∧
        (place cols line word).2.length = needed line word ∨
      cols < needed line word ∧
        (place cols line word).1.length = min 1 line.length + cuts cols word ∧
        (place cols line word).2.length = word.length - cuts cols word * cols := by
  rw [place]
  by_cases hfits : needed line word ≤ cols
  · rw [if_pos hfits]
    exact .inl ⟨hfits, rfl, length_appendWord line word⟩
  · rw [if_neg hfits]
    refine .inr ⟨Nat.lt_of_not_le hfits, ?_, length_snd_chop hcols word⟩
    rw [List.length_append, length_fst_chop hcols]
    cases line with
    | nil => rfl
    | cons c rest => simp

/-- A word that is longer than a line is cut. -/
theorem cuts_pos (hcols : 0 < cols) (h : cols < word.length) : 0 < cuts cols word :=
  Nat.div_pos (by omega) hcols

/-- In more columns a word is cut no more often. -/
theorem cuts_anti (hcols : 0 < cols) (h : cols ≤ cols') (word : Line) :
    cuts cols' word ≤ cuts cols word :=
  Nat.div_le_div_left h hcols

/-! ## Two widths -/

/-- A run with `finished` lines done and `line` open is no further than one with `finished'` and
`line'`: it has finished fewer lines, or as many and its open line is no longer. -/
def NoFurther (finished : Nat) (line : Line) (finished' : Nat) (line' : Line) : Prop :=
  finished < finished' ∨ finished = finished' ∧ line.length ≤ line'.length

variable {finished finished' : Nat}

/-- One word keeps the run in more columns behind. -/
theorem NoFurther.place (h : NoFurther finished line finished' line') (hcols' : 0 < cols')
    (hle : cols' ≤ cols) (word : Line) :
    NoFurther (finished + (place cols line word).1.length) (place cols line word).2
      (finished' + (place cols' line' word).1.length) (place cols' line' word).2 := by
  have hcols : 0 < cols := Nat.lt_of_lt_of_le hcols' hle
  have hcuts : cuts cols word ≤ cuts cols' word := cuts_anti hcols' hle word
  unfold NoFurther at *
  rcases length_place_cases hcols line word with ⟨hfits, hnone, hopened⟩ | ⟨hover, hsome, hopened⟩
  · have hneeded := needed_cases line word
    have hneeded' := needed_cases line' word
    rcases length_place_cases hcols' line' word with ⟨-, hnone', hopened'⟩ | ⟨hover', hsome', -⟩
    -- The word joins both open lines.
    · omega
    -- Only the wide run has room for the word, so the narrow one finishes a line and gets ahead.
    · have hlong : cols' < word.length → 0 < cuts cols' word := cuts_pos hcols'
      omega
  · rcases length_place_cases hcols' line' word with
      ⟨hfits', hnone', hopened'⟩ | ⟨-, hsome', hopened'⟩
    -- Only the narrow run has room for the word, so it was ahead. The wide one finishes a line and
    -- opens the next with the whole word.
    · have hneeded := needed_cases line word
      have hneeded' := needed_cases line' word
      rw [cuts_of_le (by omega)] at hsome hopened
      rw [Nat.zero_mul] at hopened
      omega
    -- Neither has room. If both cut the word equally often, the wide run leaves less of it over.
    · rcases Nat.lt_or_eq_of_le hcuts with hfewer | heq
      · omega
      · have hrest : cuts cols' word * cols' ≤ cuts cols word * cols :=
          heq ▸ Nat.mul_le_mul_left _ hle
        omega

/-- Packing words takes no more lines in more columns. The induction is on the words, for any two
runs of which the one in more columns is no further. -/
theorem NoFurther.length_packWords_le (h : NoFurther finished line finished' line')
    (hcols' : 0 < cols') (hle : cols' ≤ cols) (words : List Line) :
    finished + (packWords cols line words).length ≤
      finished' + (packWords cols' line' words).length := by
  induction words generalizing finished finished' line line' with
  | nil =>
    show finished + 1 ≤ finished' + 1
    unfold NoFurther at h
    omega
  | cons word rest ih =>
    have hrest := ih (h.place hcols' hle word)
    rw [packWords_cons, packWords_cons, List.length_append, List.length_append, ← Nat.add_assoc,
      ← Nat.add_assoc]
    exact hrest

/-! ## Paragraphs and texts -/

/-- A paragraph takes no more lines in more columns. -/
theorem length_wrapParagraph_anti (hcols' : 0 < cols') (hle : cols' ≤ cols) (paragraph : Line) :
    (wrapParagraph cols paragraph).length ≤ (wrapParagraph cols' paragraph).length := by
  have hstart : NoFurther 0 [] 0 [] := .inr ⟨rfl, Nat.le_refl _⟩
  have hpack := hstart.length_packWords_le hcols' hle (pieces ' ' paragraph)
  rwa [Nat.zero_add, Nat.zero_add] at hpack

/-- The lines of a text are no more if those of each paragraph are no more. -/
theorem length_flatMap_le {f g : Line → List Line} (h : ∀ p, (f p).length ≤ (g p).length)
    (paragraphs : List Line) : (paragraphs.flatMap f).length ≤ (paragraphs.flatMap g).length := by
  rw [List.length_flatMap, List.length_flatMap]
  exact List.sum_le_sum fun p _ => h p

theorem length_lines_anti (text : List Char) {wrap wrap' : Int} (h : wrap ≤ wrap') :
    (lines text (some wrap')).length ≤ (lines text (some wrap)).length :=
  length_flatMap_le (length_wrapParagraph_anti (columns_pos wrap) (columns_mono h)) _

/-- Without a width every paragraph takes one line, which is the least. -/
theorem length_lines_none_le (text : List Char) (wrap : Int) :
    (lines text none).length ≤ (lines text (some wrap)).length := by
  have hnone : lines text none = (pieces '\n' text).flatMap fun p => [p] :=
    (List.flatMap_singleton' _).symm
  rw [hnone]
  refine length_flatMap_le (fun p => ?_) _
  exact List.length_pos_iff.2 (packWords_ne_nil _ _ _)

/-- If the lines are as many as a signed word can count, then of two heights that can be measured
that of fewer lines is no greater. -/
theorem height_measure_mono {text : List Char} {wrap wrap' : Option Int} {size size' : Int × Int}
    (hle : (lines text wrap').length ≤ (lines text wrap).length)
    (hcount : ((lines text wrap).length : Int) ≤ Word32.greatest)
    (hsize : measure text wrap = .ok size) (hsize' : measure text wrap' = .ok size') :
    size'.2 ≤ size.2 := by
  obtain ⟨-, -, rfl⟩ := measure_eq_ok_iff.1 hsize
  obtain ⟨-, -, rfl⟩ := measure_eq_ok_iff.1 hsize'
  have hcount' : ((lines text wrap').length : Int) ≤ Word32.greatest := by omega
  rw [Word32.cast_natCast_of_le hcount, Word32.cast_natCast_of_le hcount']
  unfold cellHeight
  omega

/-- In a width that is a signed word a text can be measured if the height of its lines is one too. -/
theorem exists_measure_of_fits {text : List Char} {wrap : Int} (hwrap : wrap ≤ Word32.greatest)
    (hheight : ((lines text (some wrap)).length : Int) * cellHeight ≤ Word32.greatest) :
    ∃ size, measure text (some wrap) = .ok size := by
  have hwidth : ((extent text (some wrap)).1 : Int) ≤ Word32.greatest := by
    refine Int.le_trans (width_extent_le text wrap) ?_
    unfold Word32.greatest at *
    omega
  rw [← Int.natCast_mul] at hheight
  exact ⟨_, measure_eq_extent hwidth hheight⟩

/-- If a text can be measured in a width, and its lines are as many as a signed word can count, it
can be measured in every wider one that is a signed word. -/
theorem exists_measure_of_wider {text : List Char} {wrap wrap' : Int} {size : Int × Int}
    (h : wrap ≤ wrap') (hwrap' : wrap' ≤ Word32.greatest)
    (hcount : ((lines text (some wrap)).length : Int) ≤ Word32.greatest)
    (hsize : measure text (some wrap) = .ok size) :
    ∃ size', measure text (some wrap') = .ok size' := by
  obtain ⟨-, hheight, -⟩ := measure_eq_ok_iff.1 hsize
  rw [Word32.cast_natCast_of_le hcount] at hheight
  refine exists_measure_of_fits hwrap' (Int.le_trans ?_ hheight.2)
  exact Int.mul_le_mul_of_nonneg_right (Int.ofNat_le.2 (length_lines_anti text h)) (by decide)

/-- A text takes no more lines in a wider width than in a narrower one, and without a width no more
than in any. So it is measured as no higher there, as long as a signed word can count the lines of
the narrower one, and can be measured in the wider one if it can be in the narrower. The height is
the product of the lines' count, cut to such a word, and stops whoever asks for it if it is none;
but in every width that is a signed word it is one if the lines are few enough. -/
theorem wider_wraps_take_no_more_lines (text : List Char) {wrap wrap' : Int} (h : wrap ≤ wrap') :
    ((lines text (some wrap')).length ≤ (lines text (some wrap)).length ∧
        (lines text none).length ≤ (lines text (some wrap')).length ∧
        (lines text none).length ≤ (lines text (some wrap)).length) ∧
      (((lines text (some wrap)).length : Int) ≤ Word32.greatest →
        (∀ size, measure text (some wrap) = .ok size → wrap' ≤ Word32.greatest →
          ∃ size', measure text (some wrap') = .ok size' ∧ size'.2 ≤ size.2) ∧
        ∀ w ∈ [wrap, wrap'], ∀ size size', measure text (some w) = .ok size →
          measure text none = .ok size' → size'.2 ≤ size.2) ∧
      (∀ w, ∀ size, measure text w = .ok size →
        size.2 = Word32.cast (lines text w).length * 10 ∧ Word32.Fits size.2) ∧
      ∀ w ≤ Word32.greatest, ((lines text (some w)).length : Int) * 10 ≤ Word32.greatest →
        ∃ size, measure text (some w) = .ok size := by
  have hwider := length_lines_anti text h
  have hnone := length_lines_none_le text
  refine ⟨⟨hwider, hnone wrap', hnone wrap⟩, fun hcount => ⟨fun size hsize hwrap' => ?_, ?_⟩, ?_,
    fun w => exists_measure_of_fits⟩
  · obtain ⟨size', hsize'⟩ := exists_measure_of_wider h hwrap' hcount hsize
    exact ⟨size', hsize', height_measure_mono hwider hcount hsize hsize'⟩
  · intro w hw size size' hsize hsize'
    -- Neither width has more lines than the narrower one, which a signed word can count.
    have hle : (lines text (some w)).length ≤ (lines text (some wrap)).length := by
      rcases List.mem_cons.1 hw with rfl | hw
      · exact Nat.le_refl _
      · rw [List.mem_singleton.1 hw]
        exact hwider
    exact height_measure_mono (hnone w) (by omega) hsize hsize'
  · intro w size hsize
    obtain ⟨-, hfits, rfl⟩ := measure_eq_ok_iff.1 hsize
    exact ⟨rfl, hfits⟩

/-- Only the narrower of the two widths has room for the last word behind the second, and still the
wider one takes no more lines. -/
theorem lines_of_wider_text :
    (24 : Int) ≤ 36 ∧
      lines "one to x".toList (some 24) = ["one".toList, "to x".toList] ∧
      lines "one to x".toList (some 36) = ["one to".toList, "x".toList] ∧
      (lines "one to x".toList (some 36)).length ≤ (lines "one to x".toList (some 24)).length ∧
      ∃ size', measure "one to x".toList (some 36) = .ok size' ∧ size'.2 ≤ 20 := by
  have hwidth : (24 : Int) ≤ 36 := by decide
  have hlines : lines "one to x".toList (some 24) = ["one".toList, "to x".toList] := by
    decide +kernel
  have hsize : measure "one to x".toList (some 24) = .ok (24, 20) := by
    rw [measure_eq_ok_iff, hlines]
    decide
  obtain ⟨⟨hle, -, -⟩, hheight, -⟩ := wider_wraps_take_no_more_lines "one to x".toList hwidth
  refine ⟨hwidth, hlines, by decide +kernel, hle, (hheight ?_).1 _ hsize (by decide)⟩
  rw [hlines]
  decide

end Handheld.Text
