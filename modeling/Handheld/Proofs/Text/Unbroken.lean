import Handheld.Canvas.Writing
import Handheld.Proofs.Text.Wrapping

/-!
# Texts that need no break

A width that has a column for every character of a paragraph leaves the paragraph on one line. The
words are then put together again with the spaces that stood between them and after them, and only
the spaces ahead of the first word are lost.

* `packWords_of_length_le`: words that fit on one line are joined there.
* `joined_pieces_space`: the words of a paragraph joined again are the paragraph without its indent.
* `lines_of_short_paragraphs`: the lines of a text whose paragraphs fit.
* `wrapping_short_paragraphs_drops_indents`: what that means for the size and the drawing of a text.
-/

namespace Handheld.Text

/-- The paragraph without the spaces at its start. -/
def unindented (paragraph : Line) : Line := paragraph.dropWhile (· = ' ')

/-- The text with every paragraph unindented. -/
def unindentedText (text : List Char) : List Char :=
  ['\n'].intercalate ((pieces '\n' text).map unindented)

/-- The open line with words added to it one after the other. -/
def joined (line : Line) (words : List Line) : Line := words.foldl appendWord line

theorem length_unindented_le (paragraph : Line) :
    (unindented paragraph).length ≤ paragraph.length :=
  (List.dropWhile_sublist _).length_le

variable {cols : Nat} {line : Line}

/-! ## Words that fit on one line -/

theorem length_appendWord (line word : Line) :
    (appendWord line word).length = needed line word := by
  cases line with
  | nil => rfl
  | cons c rest =>
    simp [appendWord, needed]
    omega

/-- A line gets no shorter as words are added to it. -/
theorem length_le_length_joined (line : Line) (words : List Line) :
    line.length ≤ (joined line words).length := by
  induction words generalizing line with
  | nil => exact Nat.le_refl _
  | cons word rest ih =>
    have hword : line.length ≤ (appendWord line word).length := by
      cases line with
      | nil => exact Nat.zero_le _
      | cons c rest => simp [appendWord]
    exact Nat.le_trans hword (ih _)

/-- Words that fit on one line are joined there, and no line is finished before. -/
theorem packWords_of_length_le {words : List Line} (h : (joined line words).length ≤ cols) :
    packWords cols line words = [joined line words] := by
  induction words generalizing line with
  | nil => rfl
  | cons word rest ih =>
    -- The word fits, since the line with all the words does.
    have hfits : needed line word ≤ cols := by
      rw [← length_appendWord]
      exact Nat.le_trans (length_le_length_joined _ rest) h
    rw [packWords, place, if_pos hfits]
    exact ih h

/-! ## Joining the words of a paragraph -/

/-- After a character every word is set off by a space. -/
theorem joined_of_ne_nil (hline : line ≠ []) (words : List Line) :
    joined line words = line ++ (words.map (' ' :: ·)).flatten := by
  induction words generalizing line with
  | nil => exact (List.append_nil line).symm
  | cons word rest ih =>
    obtain ⟨c, others, rfl⟩ := List.exists_cons_of_ne_nil hline
    have happend : appendWord (c :: others) word = c :: others ++ ' ' :: word := rfl
    show joined (appendWord (c :: others) word) rest = _
    rw [happend, ih (by simp)]
    simp

/-- The words of a paragraph with a space ahead of each are the paragraph with a space ahead. -/
theorem flatten_map_pieces_space (paragraph : Line) :
    ((pieces ' ' paragraph).map (' ' :: ·)).flatten = ' ' :: paragraph := by
  induction paragraph with
  | nil => rfl
  | cons c rest ih =>
    by_cases hc : c = ' '
    · subst hc
      rw [pieces_cons_self, List.map_cons, List.flatten_cons, ih]
      rfl
    -- Another character joins the first word, behind the space ahead of it.
    · obtain ⟨first, others, hrest, hcons⟩ := pieces_cons_of_ne hc rest
      rw [hrest] at ih
      rw [hcons]
      simp only [List.map_cons, List.flatten_cons, List.cons_append, List.cons.injEq,
        true_and] at ih ⊢
      exact ih

/-- The words of a paragraph joined again are the paragraph without its indent. -/
theorem joined_pieces_space (paragraph : Line) :
    joined [] (pieces ' ' paragraph) = unindented paragraph := by
  induction paragraph with
  | nil => rfl
  | cons c rest ih =>
    by_cases hc : c = ' '
    -- The empty word ahead of a space leaves the open line empty, and so the space is lost.
    · subst hc
      rw [pieces_cons_self]
      exact ih
    · obtain ⟨first, others, -, hcons⟩ := pieces_cons_of_ne hc rest
      have hwords := flatten_map_pieces_space (c :: rest)
      rw [hcons, List.map_cons, List.flatten_cons, List.cons_append] at hwords
      have hdrop : unindented (c :: rest) = c :: rest :=
        List.dropWhile_cons_of_neg (by simpa using hc)
      rw [hcons, hdrop]
      show joined (c :: first) others = c :: rest
      rw [joined_of_ne_nil (List.cons_ne_nil _ _)]
      exact (List.cons.inj hwords).2

/-- A paragraph that fits on one line stays there, without its indent. -/
theorem wrapParagraph_of_length_le {paragraph : Line} (h : paragraph.length ≤ cols) :
    wrapParagraph cols paragraph = [unindented paragraph] := by
  have hlength : (joined [] (pieces ' ' paragraph)).length ≤ cols := by
    rw [joined_pieces_space]
    exact Nat.le_trans (length_unindented_le paragraph) h
  rw [wrapParagraph, packWords_of_length_le hlength, joined_pieces_space]

/-- A paragraph is as it was without its indent exactly if it has none. -/
theorem unindented_eq_self_iff {paragraph : Line} :
    unindented paragraph = paragraph ↔ paragraph.head? ≠ some ' ' := by
  cases paragraph with
  | nil => simp [unindented]
  | cons c rest =>
    by_cases hc : c = ' '
    · subst hc
      -- What is left of an indented paragraph is shorter.
      have hlt : (unindented (' ' :: rest)).length < (' ' :: rest).length :=
        Nat.lt_succ_of_le (length_unindented_le rest)
      simp only [List.head?_cons, ne_eq, not_true_eq_false, iff_false]
      intro heq
      rw [heq] at hlt
      exact Nat.lt_irrefl _ hlt
    · simp [unindented, hc]

/-! ## The text -/

/-- A text whose paragraphs fit has a line for each of them, without its indent. -/
theorem lines_of_short_paragraphs {text : List Char} {wrap : Int}
    (h : ∀ paragraph ∈ pieces '\n' text, paragraph.length ≤ columns wrap) :
    lines text (some wrap) = (pieces '\n' text).map unindented := by
  have hblocks : (pieces '\n' text).map (wrapParagraph (columns wrap)) =
      (pieces '\n' text).map fun paragraph => [unindented paragraph] :=
    List.map_congr_left fun paragraph hparagraph => wrapParagraph_of_length_le (h _ hparagraph)
  rw [lines_some, hblocks, ← List.flatMap_def]
  exact List.flatMap_pure_eq_map _ _

/-- Without a width the unindented text has the unindented paragraphs as its lines. -/
theorem lines_unindentedText (text : List Char) :
    lines (unindentedText text) none = (pieces '\n' text).map unindented := by
  refine List.splitOn_intercalate '\n' ?_ (by simpa using pieces_ne_nil '\n' text)
  intro line hline
  obtain ⟨paragraph, hparagraph, rfl⟩ := List.mem_map.1 hline
  exact fun hnewline =>
    not_mem_of_mem_pieces hparagraph ((List.dropWhile_sublist _).subset hnewline)

/-- Texts with the same lines have the same size and are drawn alike. -/
theorem measure_write_of_lines_eq {text text' : List Char} {wrap wrap' : Option Int}
    (h : lines text wrap = lines text' wrap') :
    measure text wrap = measure text' wrap' ∧
      ∀ x y, Canvas.write text x y wrap = Canvas.write text' x y wrap' := by
  refine ⟨?_, fun x y => ?_⟩
  · rw [measure, measure, h]
  · rw [Canvas.write, Canvas.write, h]

/-- If every paragraph of a text has at most one character for each six pixels of the width, or one
character if the width has less, then the lines of the text in that width are those without a
width, each without the spaces at its start. So the text has the size and is drawn as the
unindented text is without a width. If no paragraph starts with a space, and only then, the lines
are the same, and so is the size and every drawing of the text. -/
theorem wrapping_short_paragraphs_drops_indents (text : List Char) (wrap : Int)
    (h : ∀ paragraph ∈ pieces '\n' text, (paragraph.length : Int) ≤ max (wrap.tdiv 6) 1) :
    lines text (some wrap) = (lines text none).map (·.dropWhile (· = ' ')) ∧
      (measure text (some wrap) = measure (unindentedText text) none ∧
        ∀ x y, Canvas.write text x y (some wrap) = Canvas.write (unindentedText text) x y none) ∧
      (lines text (some wrap) = lines text none ↔
        ∀ paragraph ∈ pieces '\n' text, paragraph.head? ≠ some ' ') ∧
      ((∀ paragraph ∈ pieces '\n' text, paragraph.head? ≠ some ' ') →
        measure text (some wrap) = measure text none ∧
          ∀ x y, Canvas.write text x y (some wrap) = Canvas.write text x y none) := by
  have hshort : ∀ paragraph ∈ pieces '\n' text, paragraph.length ≤ columns wrap := by
    intro paragraph hparagraph
    have hle := h paragraph hparagraph
    show paragraph.length ≤ (max (wrap.tdiv 6) 1).toNat
    omega
  have hlines := lines_of_short_paragraphs hshort
  have hsame : lines text (some wrap) = lines text none ↔
      ∀ paragraph ∈ pieces '\n' text, paragraph.head? ≠ some ' ' := by
    -- The lines are the same exactly if no paragraph loses an indent.
    have hid : lines text none = (pieces '\n' text).map id := (List.map_id _).symm
    rw [hlines, hid, List.map_inj_left]
    exact forall₂_congr fun paragraph _ => unindented_eq_self_iff
  exact ⟨hlines, measure_write_of_lines_eq (hlines.trans (lines_unindentedText text).symm), hsame,
    fun hindent => measure_write_of_lines_eq (hsame.2 hindent)⟩

/-- Spaces within and at the end of a paragraph are kept, and an empty paragraph stays. -/
theorem size_of_unbroken_text :
    (∀ paragraph ∈ pieces '\n' "ab  c \n\nd".toList,
        (paragraph.length : Int) ≤ max (Int.tdiv 37 6) 1) ∧
      measure "ab  c \n\nd".toList (some 37) = .ok (36, 30) := by
  have hshort : ∀ paragraph ∈ pieces '\n' "ab  c \n\nd".toList,
      (paragraph.length : Int) ≤ max (Int.tdiv 37 6) 1 := by decide +kernel
  obtain ⟨-, -, -, hsame⟩ := wrapping_short_paragraphs_drops_indents _ 37 hshort
  refine ⟨hshort, (hsame ?_).1.trans (measure_eq_ok_iff.2 ?_)⟩
  · decide +kernel
  · decide +kernel

/-- An indented line of two characters in ten columns: it needs no break, but loses its indent. -/
theorem indent_lost_without_break :
    (∀ paragraph ∈ pieces '\n' " a".toList, (paragraph.length : Int) ≤ max (Int.tdiv 60 6) 1) ∧
      lines " a".toList (some 60) ≠ lines " a".toList none ∧
      measure " a".toList (some 60) ≠ measure " a".toList none := by
  have hwrapped : measure " a".toList (some 60) = .ok (6, 10) :=
    measure_eq_ok_iff.2 (by decide +kernel)
  have hplain : measure " a".toList none = .ok (12, 10) := measure_eq_ok_iff.2 (by decide +kernel)
  refine ⟨by decide +kernel, by decide +kernel, ?_⟩
  rw [hwrapped, hplain]
  exact fun h => absurd (Except.ok.inj h) (by decide)

end Handheld.Text
