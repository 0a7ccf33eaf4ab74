import Handheld.Text.Font

/-!
# Breaking text into lines

A newline always ends a line. Without a width that is all; with one, the words of each paragraph
(its pieces between spaces) are packed greedily into lines of a fixed number of columns, and a word
longer than a whole line is cut. A word that comes while the open line is still empty starts it
without a space, so spaces at the start of a line are dropped.

* `chop_flatten`: cutting a word loses nothing.
* `length_of_mem_chop`: all pieces but the last are exactly one line long.
* `length_chop_last_le`: the last piece fits on a line.
-/

namespace Handheld.Text

/-- A line of text, without its newline. -/
abbrev Line := List Char

/-- The pieces of a text between the occurrences of a separator. -/
def pieces (sep : Char) (text : List Char) : List (List Char) := text.splitOn sep

/-- Columns of a width in pixels: a width narrower than a character still gets one. -/
def columns (wrap : Int) : Nat := (max (wrap.tdiv cellWidth) 1).toNat

/-- Cut a word into pieces of one line each and a last piece that fits on a line. -/
def chop (cols : Nat) (word : List Char) : List Line × Line :=
  if _h : 0 < cols ∧ word.drop cols ≠ [] then
    let (full, last) := chop cols (word.drop cols)
    (word.take cols :: full, last)
  else ([], word)
termination_by word.length
decreasing_by
  -- A line has a column at least, so what is left over is shorter.
  have := mt List.drop_eq_nil_iff.2 _h.2
  simp
  omega

/-- Columns that the open line takes if a word is added to it. -/
def needed (line word : Line) : Nat :=
  if line.isEmpty then word.length else line.length + 1 + word.length

/-- The open line with a word added to it, set off by a space unless the line is empty. -/
def appendWord (line word : Line) : Line :=
  if line.isEmpty then word else line ++ ' ' :: word

/-- Put a word after the open line: the lines that this finishes, and the new open line. -/
def place (cols : Nat) (line word : Line) : List Line × Line :=
  if needed line word ≤ cols then ([], appendWord line word)
  else
    -- A word that does not fit starts a line of its own, and only then is it cut.
    let (full, last) := chop cols word
    ((if line.isEmpty then [] else [line]) ++ full, last)

/-- Pack words after an open line, and finish that line at the end. -/
def packWords (cols : Nat) (line : Line) : List Line → List Line
  | [] => [line]
  | word :: rest =>
    let (finished, opened) := place cols line word
    finished ++ packWords cols opened rest

/-- The lines of one paragraph in a given number of columns. -/
def wrapParagraph (cols : Nat) (paragraph : Line) : List Line :=
  packWords cols [] (pieces ' ' paragraph)

/-- The lines of a text. Without a width, its paragraphs as they are. -/
def lines (text : List Char) (wrap : Option Int) : List Line :=
  match wrap with
  | none => pieces '\n' text
  | some w => (pieces '\n' text).flatMap (wrapParagraph (columns w))

/-- There is always room for a character. -/
theorem columns_pos (wrap : Int) : 0 < columns wrap := by
  unfold columns
  omega

/-- Cutting a word loses nothing and reorders nothing. -/
theorem chop_flatten (cols : Nat) (word : Line) :
    (chop cols word).1.flatten ++ (chop cols word).2 = word := by
  fun_induction chop cols word with
  | case1 word h full last heq ih =>
    rw [heq] at ih
    simp [ih]
  | case2 => simp

/-- Every piece but the last is exactly one line long. -/
theorem length_of_mem_chop {cols : Nat} {word piece : Line} (h : piece ∈ (chop cols word).1) :
    piece.length = cols := by
  fun_induction chop cols word with
  | case1 word hw full last heq ih =>
    rw [heq] at ih
    have hlong := mt List.drop_eq_nil_iff.2 hw.2
    rcases List.mem_cons.1 h with rfl | h
    · simp
      omega
    · exact ih h
  | case2 => simp at h

/-- The last piece fits on a line. -/
theorem length_chop_last_le {cols : Nat} (hcols : 0 < cols) (word : Line) :
    (chop cols word).2.length ≤ cols := by
  fun_induction chop cols word with
  | case1 word hw full last heq ih =>
    rw [heq] at ih
    exact ih
  | case2 word hw =>
    -- Nothing was cut off, although a line has a column: the word is no longer than a line.
    have : word.drop cols = [] := by
      by_cases h : word.drop cols = []
      · exact h
      · exact absurd ⟨hcols, h⟩ hw
    simpa using this

/-- A word that fits on a line is not cut. -/
theorem chop_of_le {cols : Nat} {word : Line} (h : word.length ≤ cols) :
    chop cols word = ([], word) := by
  rw [chop, dif_neg fun hw => hw.2 (List.drop_eq_nil_iff.2 h)]

end Handheld.Text
