import Handheld.Proofs.Text.Unbroken

/-!
# Wrapping a wrapped text

A text that has been broken into lines may be stored with newlines between them. Each line is then a
paragraph that fits and has no indent, so that no width from the first one on changes it.

* `pieces_wrapped`: the paragraphs of the stored text are the lines.
* `lines_wrapped`: breaking it again leaves them as they are.
* `wrapping_again_changes_nothing`: what that means for the size and the drawing of the text.
-/

namespace Handheld.Text

/-- The lines of a text in a width, with newlines between them. -/
def wrapped (text : List Char) (wrap : Int) : List Char :=
  ['\n'].intercalate (lines text (some wrap))

/-- There is a line at least, since there is a paragraph. -/
theorem lines_ne_nil (text : List Char) (wrap : Int) : lines text (some wrap) ≠ [] := by
  obtain ⟨paragraph, rest, htext⟩ := List.exists_cons_of_ne_nil (pieces_ne_nil '\n' text)
  rw [lines_some, htext, List.map_cons, List.flatten_cons]
  exact List.append_ne_nil_of_left_ne_nil (packWords_ne_nil _ _ _) _

/-- The paragraphs of a wrapped text are its lines. -/
theorem pieces_wrapped (text : List Char) (wrap : Int) :
    pieces '\n' (wrapped text wrap) = lines text (some wrap) :=
  List.splitOn_intercalate '\n' (fun _ hline => newline_not_mem_of_mem_lines hline)
    (lines_ne_nil text wrap)

/-- A wrapped text has the same lines in every width that is no narrower. -/
theorem lines_wrapped (text : List Char) {wrap wrap' : Int} (h : wrap ≤ wrap') :
    lines (wrapped text wrap) (some wrap') = lines text (some wrap) := by
  have htidy : ∀ line ∈ pieces '\n' (wrapped text wrap), Tidy (columns wrap) line := by
    rw [pieces_wrapped]
    exact fun line hline => tidy_of_mem_lines hline
  have hunindented : (pieces '\n' (wrapped text wrap)).map unindented =
      (pieces '\n' (wrapped text wrap)).map id :=
    List.map_congr_left fun line hline => unindented_eq_self_iff.2 (htidy line hline).head_ne
  -- Every line fits, and there is no indent that it could lose.
  rw [lines_of_short_paragraphs fun line hline =>
    Nat.le_trans (htidy line hline).length_le (columns_mono h), hunindented, List.map_id,
    pieces_wrapped]

/-- A text that has been broken to a width, with newlines between its lines, has the same lines in
every width that is no narrower, and without a width. So it has the size of the text in the first
width, and is drawn like it. -/
theorem wrapping_again_changes_nothing (text : List Char) {wrap wrap' : Int} (h : wrap ≤ wrap') :
    (lines (wrapped text wrap) (some wrap') = lines text (some wrap) ∧
        lines (wrapped text wrap) none = lines text (some wrap)) ∧
      (measure (wrapped text wrap) (some wrap') = measure text (some wrap) ∧
        measure (wrapped text wrap) none = measure text (some wrap)) ∧
      ∀ x y,
        Canvas.write (wrapped text wrap) x y (some wrap') = Canvas.write text x y (some wrap) ∧
          Canvas.write (wrapped text wrap) x y none = Canvas.write text x y (some wrap) := by
  have hagain := lines_wrapped text h
  have hplain : lines (wrapped text wrap) none = lines text (some wrap) := pieces_wrapped text wrap
  obtain ⟨hsize, hdraw⟩ := measure_write_of_lines_eq hagain
  obtain ⟨hsize', hdraw'⟩ := measure_write_of_lines_eq hplain
  exact ⟨⟨hagain, hplain⟩, ⟨hsize, hsize'⟩, fun x y => ⟨hdraw x y, hdraw' x y⟩⟩

/-- The indent is lost and a word is cut the first time only, and the blank lines stay: the one of
the empty paragraph, and the one that the space behind a full line has left. -/
theorem lines_of_wrapped_text :
    (18 : Int) ≤ 40 ∧
      wrapped " a b  cdefg\n\nhij ".toList 18 = "a b\ncde\nfg\n\nhij\n".toList ∧
      lines (wrapped " a b  cdefg\n\nhij ".toList 18) (some 40) =
        ["a b".toList, "cde".toList, "fg".toList, [], "hij".toList, []] := by
  have hwidth : (18 : Int) ≤ 40 := by decide
  refine ⟨hwidth, by decide +kernel, ?_⟩
  rw [(wrapping_again_changes_nothing _ hwidth).1.1]
  decide +kernel

end Handheld.Text
