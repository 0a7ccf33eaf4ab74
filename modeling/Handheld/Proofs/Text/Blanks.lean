import Handheld.Proofs.Text.Wrapping
import Mathlib.Data.List.DropRight

/-!
# Blank lines

The lines that a paragraph finishes on the way hold a character each, so only its last line may be
blank. The spaces at the end of a paragraph are empty words: they go on its last line as long as
there is room, and the first one for which there is none opens a line on which nothing follows.

* `wrapParagraph_eq_padded`: what the spaces at the end of a paragraph add to its lines.
* `nil_not_mem_dropLast_packWords`: every line but the last holds a character.
* `nil_mem_wrapParagraph_iff`: when a paragraph has a blank line.
* `blank_line_iff_spaces_overhang`: all of it for a text with its paragraphs.
-/

namespace Handheld.Text

/-- The paragraph without the spaces at its end. -/
def trimmed (paragraph : Line) : Line := paragraph.rdropWhile (· = ' ')

/-- The number of spaces at the end of a paragraph. -/
def trailing (paragraph : Line) : Nat := (paragraph.rtakeWhile (· = ' ')).length

/-- The last line of a paragraph. -/
def lastLine (cols : Nat) (paragraph : Line) : Line :=
  (wrapParagraph cols paragraph).getLastD []

/-- What an open line becomes if the paragraph ends with `n` spaces behind it. An empty line takes
none of them. Any other takes those for which there is room, and if there are more it is finished
and the next line stays empty. -/
def padded (cols : Nat) (line : Line) (n : Nat) : List Line :=
  if line.isEmpty then [[]]
  else if line.length + n ≤ cols then [line ++ List.replicate n ' ']
  else [line ++ List.replicate (cols - line.length) ' ', []]

variable {cols n : Nat} {line opened word paragraph : Line} {words finished : List Line}

/-! ## The words of a paragraph and of its spaces -/

theorem eq_trimmed_append (paragraph : Line) :
    paragraph = trimmed paragraph ++ List.replicate (trailing paragraph) ' ' := by
  have hspaces : paragraph.rtakeWhile (· = ' ') = List.replicate (trailing paragraph) ' ' :=
    List.eq_replicate_of_mem fun c hc => by simpa using List.mem_rtakeWhile_imp hc
  rw [← hspaces]
  exact List.rdropWhile_append_rtakeWhile.symm

theorem trimmed_eq_nil_iff : trimmed paragraph = [] ↔ ∀ c ∈ paragraph, c = ' ' := by
  simp [trimmed, List.rdropWhile_eq_nil_iff]

/-- Spaces at the end are empty words behind the others. -/
theorem pieces_append_spaces (paragraph : Line) (n : Nat) :
    pieces ' ' (paragraph ++ List.replicate n ' ') =
      pieces ' ' paragraph ++ List.replicate n [] := by
  induction paragraph with
  | nil =>
    induction n with
    | zero => rfl
    | succ n ih =>
      rw [List.nil_append] at ih ⊢
      rw [List.replicate_succ, pieces_cons_self, ih]
      rfl
  | cons c rest ih =>
    by_cases hc : c = ' '
    · subst hc
      rw [List.cons_append, pieces_cons_self, pieces_cons_self, ih]
      rfl
    · obtain ⟨first, others, hrest, hcons⟩ := pieces_cons_of_ne hc rest
      obtain ⟨first', others', hrest', hcons'⟩ :=
        pieces_cons_of_ne hc (rest ++ List.replicate n ' ')
      rw [hrest, hrest', List.cons_append, List.cons.injEq] at ih
      rw [List.cons_append, hcons', hcons, ih.1, ih.2]
      rfl

/-- The last word of a paragraph that does not end with a space holds a character. -/
theorem exists_pieces_append_singleton {c : Char} (hc : c ≠ ' ') (front : Line) :
    ∃ others word, pieces ' ' (front ++ [c]) = others ++ [word] ∧ word ≠ [] := by
  induction front with
  | nil =>
    obtain ⟨first, others, hnil, hcons⟩ := pieces_cons_of_ne hc []
    obtain ⟨rfl, rfl⟩ := List.cons.inj hnil
    exact ⟨[], [c], hcons, List.cons_ne_nil _ _⟩
  | cons d rest ih =>
    obtain ⟨others, word, hrest, hword⟩ := ih
    by_cases hd : d = ' '
    · subst hd
      refine ⟨[] :: others, word, ?_, hword⟩
      rw [List.cons_append, pieces_cons_self, hrest]
      rfl
    · obtain ⟨first, others', hrest', hcons⟩ := pieces_cons_of_ne hd (rest ++ [c])
      rw [hrest] at hrest'
      rw [List.cons_append, hcons]
      -- The character joins the first word, which may be the last as well.
      cases others with
      | nil =>
        obtain ⟨rfl, rfl⟩ := List.cons.inj hrest'
        exact ⟨[], d :: word, rfl, List.cons_ne_nil _ _⟩
      | cons other more =>
        obtain ⟨rfl, rfl⟩ := List.cons.inj hrest'
        exact ⟨(d :: other) :: more, word, rfl, hword⟩

/-! ## Empty words behind a line -/

theorem exists_append_of_packWords (cols : Nat) (line : Line) (words : List Line) :
    ∃ finished opened, packWords cols line words = finished ++ [opened] := by
  obtain ⟨finished, opened, h⟩ :=
    (List.eq_nil_or_concat _).resolve_left (packWords_ne_nil cols line words)
  exact ⟨finished, opened, h.trans (List.concat_eq_append ..)⟩

/-- What is packed behind the last word continues with the line that is open there. -/
theorem packWords_append (h : packWords cols line words = finished ++ [opened])
    (more : List Line) :
    packWords cols line (words ++ more) = finished ++ packWords cols opened more := by
  induction words generalizing line finished with
  | nil =>
    have hline : [] ++ [line] = finished ++ [opened] := h
    obtain ⟨rfl, heq⟩ := List.append_inj' hline rfl
    cases heq
    rfl
  | cons word rest ih =>
    obtain ⟨others, last, hrest⟩ := exists_append_of_packWords cols (place cols line word).2 rest
    rw [packWords_cons, hrest, ← List.append_assoc] at h
    obtain ⟨rfl, heq⟩ := List.append_inj' h rfl
    cases heq
    rw [List.cons_append, packWords_cons, ih hrest, List.append_assoc]

theorem padded_of_ne_nil (h : line ≠ []) (cols n : Nat) :
    padded cols line n =
      if line.length + n ≤ cols then [line ++ List.replicate n ' ']
      else [line ++ List.replicate (cols - line.length) ' ', []] := by
  rw [padded, List.isEmpty_eq_false_iff.2 h, if_neg Bool.false_ne_true]

/-- The first space behind a line takes one column of it. -/
theorem padded_succ (hne : line ≠ []) (hroom : line.length < cols) (n : Nat) :
    padded cols line (n + 1) = padded cols (line ++ [' ']) n := by
  have hone : (line ++ [' ']).length = line.length + 1 := List.length_append
  have hline : ∀ m, line ++ ' ' :: List.replicate m ' ' = line ++ List.replicate (m + 1) ' ' :=
    fun m => rfl
  rw [padded_of_ne_nil hne, padded_of_ne_nil (by simp), hone]
  simp only [List.append_assoc, List.singleton_append, hline]
  have hrest : cols - (line.length + 1) + 1 = cols - line.length := by omega
  rw [hrest, Nat.add_assoc, Nat.add_comm 1 n]

/-- An empty word is a space if there is room for one. -/
theorem place_nil_of_lt (hne : line ≠ []) (hroom : line.length < cols) :
    place cols line [] = ([], line ++ [' ']) := by
  obtain ⟨c, rest, rfl⟩ := List.exists_cons_of_ne_nil hne
  exact if_pos hroom

/-- An empty word finishes a full line. -/
theorem place_nil_of_full (hne : line ≠ []) (hfull : line.length = cols) :
    place cols line [] = ([line], []) := by
  obtain ⟨c, rest, rfl⟩ := List.exists_cons_of_ne_nil hne
  have hover : ¬ needed (c :: rest) [] ≤ cols := by
    rw [← hfull]
    exact Nat.not_succ_le_self _
  rw [place, if_neg hover, chop_of_le (Nat.zero_le _)]
  rfl

/-- Empty words pad the open line while there is room. The induction is on their number. -/
theorem packWords_replicate_nil (hline : line.length ≤ cols) (n : Nat) :
    packWords cols line (List.replicate n []) = padded cols line n := by
  induction n generalizing line with
  | zero =>
    by_cases hne : line = []
    · subst hne
      rfl
    · rw [padded_of_ne_nil hne, Nat.add_zero, if_pos hline]
      exact congrArg ([·]) (List.append_nil line).symm
  | succ n ih =>
    rw [List.replicate_succ, packWords_cons]
    by_cases hne : line = []
    · subst hne
      exact ih hline
    rcases Nat.lt_or_eq_of_le hline with hroom | hfull
    · have hlonger : (line ++ [' ']).length ≤ cols := by
        rw [List.length_append]
        exact hroom
      rw [place_nil_of_lt hne hroom, padded_succ hne hroom]
      exact ih hlonger
    -- The line that is opened behind a full one takes none of the other spaces.
    · have hover : ¬ line.length + (n + 1) ≤ cols := by omega
      rw [place_nil_of_full hne hfull, padded_of_ne_nil hne, if_neg hover, ih (Nat.zero_le _),
        hfull, Nat.sub_self, List.replicate_zero, List.append_nil]
      rfl

theorem wrapParagraph_eq_append (cols : Nat) (paragraph : Line) :
    wrapParagraph cols paragraph =
      (wrapParagraph cols paragraph).dropLast ++ [lastLine cols paragraph] := by
  obtain ⟨finished, opened, h⟩ := exists_append_of_packWords cols [] (pieces ' ' paragraph)
  rw [lastLine, wrapParagraph, h]
  simp

theorem length_lastLine_le (hcols : 0 < cols) (paragraph : Line) :
    (lastLine cols paragraph).length ≤ cols := by
  have hmem : lastLine cols paragraph ∈ wrapParagraph cols paragraph := by
    rw [wrapParagraph_eq_append]
    exact List.mem_append_right _ (List.mem_singleton_self _)
  exact (tidy_of_mem_packWords hcols (tidy_nil cols)
    (fun word hword => not_mem_of_mem_pieces hword) _ hmem).length_le

/-- The lines of a paragraph are those that it has without the spaces at its end, the last one
padded with these. -/
theorem wrapParagraph_eq_padded (hcols : 0 < cols) (paragraph : Line) :
    wrapParagraph cols paragraph =
      (wrapParagraph cols (trimmed paragraph)).dropLast ++
        padded cols (lastLine cols (trimmed paragraph)) (trailing paragraph) := by
  conv_lhs => rw [wrapParagraph, eq_trimmed_append paragraph, pieces_append_spaces]
  rw [packWords_append (wrapParagraph_eq_append cols (trimmed paragraph)),
    packWords_replicate_nil (length_lastLine_le hcols _)]

/-! ## Lines that hold a character -/

/-- What is left of a word behind its last cut is not empty, unless the word is. -/
theorem snd_chop_ne_nil (h : word ≠ []) : (chop cols word).2 ≠ [] := by
  fun_induction chop cols word with
  | case1 word hw full last heq ih =>
    rw [heq] at ih
    exact ih hw.2
  | case2 => exact h

/-- A word that is not empty leaves a character on the open line. -/
theorem snd_place_ne_nil (h : word ≠ []) : (place cols line word).2 ≠ [] := by
  rw [place]
  split
  · cases line with
    | nil => exact h
    | cons c rest => exact List.cons_ne_nil _ _
  · exact snd_chop_ne_nil h

/-- A finished line holds a character. -/
theorem nil_not_mem_fst_place (hcols : 0 < cols) (line word : Line) :
    [] ∉ (place cols line word).1 := by
  intro h
  rw [place] at h
  split at h
  · exact absurd h List.not_mem_nil
  · rcases List.mem_append.1 h with h | h
    -- The open line is finished only if it holds a character.
    · cases line with
      | nil => exact absurd h List.not_mem_nil
      | cons c rest => exact absurd (List.mem_singleton.1 h).symm (List.cons_ne_nil _ _)
    · exact absurd (length_of_mem_chop h) (Nat.ne_of_lt hcols)

/-- Every line of a paragraph but the last holds a character. -/
theorem nil_not_mem_dropLast_packWords (hcols : 0 < cols) (line : Line) (words : List Line) :
    [] ∉ (packWords cols line words).dropLast := by
  induction words generalizing line with
  | nil => exact List.not_mem_nil
  | cons word rest ih =>
    rw [packWords_cons, List.dropLast_append_of_ne_nil (packWords_ne_nil _ _ _), List.mem_append,
      not_or]
    exact ⟨nil_not_mem_fst_place hcols line word, ih _⟩

/-- A paragraph that does not end with a space has a character on its last line. -/
theorem lastLine_append_singleton_ne_nil {c : Char} (hc : c ≠ ' ') (front : Line) :
    lastLine cols (front ++ [c]) ≠ [] := by
  obtain ⟨others, word, hpieces, hword⟩ := exists_pieces_append_singleton hc front
  obtain ⟨finished, opened, hothers⟩ := exists_append_of_packWords cols [] others
  -- The last word is placed behind whatever the others leave open.
  have hlast : wrapParagraph cols (front ++ [c]) =
      (finished ++ (place cols opened word).1) ++ [(place cols opened word).2] := by
    rw [wrapParagraph, hpieces, packWords_append hothers, packWords_cons, List.append_assoc]
    rfl
  have hline : lastLine cols (front ++ [c]) = (place cols opened word).2 := by
    rw [lastLine, hlast, List.getLastD_concat]
  rw [hline]
  exact snd_place_ne_nil hword

theorem lastLine_trimmed_ne_nil (h : trimmed paragraph ≠ []) :
    lastLine cols (trimmed paragraph) ≠ [] := by
  have hc : trimmed paragraph = (trimmed paragraph).dropLast ++ [(trimmed paragraph).getLast h] :=
    (List.dropLast_append_getLast h).symm
  have hlast : ¬ decide ((trimmed paragraph).getLast h = ' ') = true :=
    List.rdropWhile_last_not _ paragraph h
  rw [hc]
  exact lastLine_append_singleton_ne_nil (by simpa using hlast) _

/-- Spaces behind a line leave a blank one exactly if the line is empty or has no room for all. -/
theorem nil_mem_padded_iff : [] ∈ padded cols line n ↔ line = [] ∨ cols < line.length + n := by
  by_cases hne : line = []
  · subst hne
    simp [padded]
  · rw [padded_of_ne_nil hne]
    split
    next hfits => simp [hne, Nat.not_lt.2 hfits]
    next hover => simp [Nat.lt_of_not_le hover]

/-- A paragraph has a blank line exactly if it is nothing but spaces, or if the spaces at its end are
more than there is room for behind its last line. -/
theorem nil_mem_wrapParagraph_iff (hcols : 0 < cols) (paragraph : Line) :
    [] ∈ wrapParagraph cols paragraph ↔
      (∀ c ∈ paragraph, c = ' ') ∨
        cols < (lastLine cols (trimmed paragraph)).length + trailing paragraph := by
  have hbefore : [] ∉ (wrapParagraph cols (trimmed paragraph)).dropLast :=
    nil_not_mem_dropLast_packWords hcols _ _
  have hblank : lastLine cols (trimmed paragraph) = [] ↔ trimmed paragraph = [] := by
    refine ⟨fun hlast => ?_, fun htrimmed => ?_⟩
    · exact Classical.byContradiction fun h => lastLine_trimmed_ne_nil h hlast
    · rw [htrimmed]
      rfl
  rw [wrapParagraph_eq_padded hcols, List.mem_append, or_iff_right hbefore, nil_mem_padded_iff,
    hblank, trimmed_eq_nil_iff]

/-- A text is broken into the lines of its paragraphs. Of the lines of a paragraph only the last may
be blank. They are those of the paragraph without the spaces at its end, the last of which takes as
many of these as there is room for, and if some are left a blank line follows. So a paragraph has a
blank line exactly if it is nothing but spaces, or if the spaces at its end are more than there is
room for behind its last line. -/
theorem blank_line_iff_spaces_overhang (text : List Char) (wrap : Int) :
    let cols := columns wrap
    (cols : Int) = max (wrap.tdiv 6) 1 ∧
      lines text (some wrap) = ((pieces '\n' text).map (wrapParagraph cols)).flatten ∧
      ∀ paragraph : Line,
        [] ∉ (wrapParagraph cols paragraph).dropLast ∧
          wrapParagraph cols paragraph =
            (wrapParagraph cols (trimmed paragraph)).dropLast ++
              padded cols (lastLine cols (trimmed paragraph)) (trailing paragraph) ∧
          ([] ∈ wrapParagraph cols paragraph ↔
            (∀ c ∈ paragraph, c = ' ') ∨
              cols < (lastLine cols (trimmed paragraph)).length + trailing paragraph) := by
  intro cols
  have hcols : 0 < cols := columns_pos wrap
  exact ⟨Int.toNat_of_nonneg (by omega), lines_some text wrap, fun paragraph =>
    ⟨nil_not_mem_dropLast_packWords hcols _ _, wrapParagraph_eq_padded hcols paragraph,
      nil_mem_wrapParagraph_iff hcols paragraph⟩⟩

/-- One column, filled by a letter with a space behind it: the space opens a blank line. -/
theorem blank_line_behind_full_line :
    lines "a ".toList (some 6) = ["a".toList, []] ∧
      measure "a ".toList (some 6) = .ok (6, 20) ∧
      (∃ c ∈ "a ".toList, c ≠ ' ') ∧ [] ∈ wrapParagraph (columns 6) "a ".toList := by
  obtain ⟨-, -, hparagraph⟩ := blank_line_iff_spaces_overhang "a ".toList 6
  obtain ⟨-, -, hblank⟩ := hparagraph "a ".toList
  refine ⟨by decide +kernel, measure_eq_ok_iff.2 (by decide +kernel),
    ⟨'a', by decide, by decide⟩, hblank.2 (.inr ?_)⟩
  decide +kernel

end Handheld.Text
