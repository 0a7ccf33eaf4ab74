import Handheld.Proofs.Text.Unbroken
import Mathlib.Data.List.Chain

/-!
# Where lines are broken

A word that fits on a line stays in one piece, and a longer one is cut into fragments of one line
each and a last one. The lines of a paragraph are made of the fragments of its words, in order, and
a line ends only where it must: between two fragments of a word, or ahead of a word for which there
is no room.

* `map_text_fragments`: the fragments of a word are the pieces it is cut into.
* `laid_place`: what placing a word adds to the rows of fragments.
* `exists_laid_packWords`: from it, what packing all words gives.
* `every_break_is_forced`: all of it for a text with its paragraphs.
-/

namespace Handheld.Text

/-- A fragment of a word. Those of one word are numbered from zero. -/
structure Fragment where
  /-- The whole word. -/
  word : Line
  /-- How many fragments of the word come before. -/
  number : Nat

/-- The characters of a fragment: as many as there are columns, except for the last fragment of a
word, which has what is left. -/
def Fragment.text (cols : Nat) (p : Fragment) : Line := (p.word.drop (p.number * cols)).take cols

/-- How often a word is cut. -/
def cuts (cols : Nat) (word : Line) : Nat := (word.length - 1) / cols

/-- The fragments of a word, of which there is one more than there are cuts. -/
def fragments (cols : Nat) (word : Line) : List Fragment :=
  (List.range (cuts cols word + 1)).map (Fragment.mk word)

/-- The line with the given fragments, set off by spaces as words are. -/
def lineOf (cols : Nat) (row : List Fragment) : Line := joined [] (row.map (Fragment.text cols))

/-- A break between two rows of fragments that cannot be avoided. -/
inductive Forced (cols : Nat) (row next : List Fragment) : Prop where
  /-- A word that is longer than a line goes on in the next row. The line is nothing but a fragment
  of it, and is full. -/
  | cut (word : Line) (k : Nat) (hlong : cols < word.length)
      (hlast : row.getLast? = some ⟨word, k⟩)
      (hline : lineOf cols row = Fragment.text cols ⟨word, k⟩)
      (hfull : (lineOf cols row).length = cols) (hnext : next.head? = some ⟨word, k + 1⟩)
  /-- The next row starts with a word, or with the first fragment of one, for which the line has no
  room. -/
  | moved (word : Line) (hnext : next.head? = some ⟨word, 0⟩)
      (hover : cols < (lineOf cols row).length + 1 + (Fragment.text cols ⟨word, 0⟩).length)

/-- Every fragment of a word that is longer than a line starts the line that it is on. -/
def Fresh (cols : Nat) (row : List Fragment) : Prop :=
  ∀ before p, before ++ [p] <+: row → cols < p.word.length → lineOf cols before = []

variable {cols k : Nat} {word : Line} {row next : List Fragment} {p : Fragment}

/-! ## The fragments of a word -/

theorem lt_length_of_lt_cuts (h : k < cuts cols word) :
    cols < word.length ∧ (k + 1) * cols < word.length := by
  have hle : (k + 1) * cols ≤ word.length - 1 := Nat.mul_le_of_le_div _ _ _ h
  have hpos : 0 < cols := by
    refine Nat.pos_of_ne_zero fun hzero => ?_
    rw [cuts, hzero, Nat.div_zero] at h
    exact Nat.not_lt_zero k h
  have hone : 1 * cols ≤ (k + 1) * cols := Nat.mul_le_mul_right _ (Nat.succ_le_succ (Nat.zero_le k))
  omega

/-- A fragment behind which the word is cut is as long as a line. -/
theorem length_text_of_lt_cuts (h : k < cuts cols word) :
    (Fragment.text cols ⟨word, k⟩).length = cols := by
  have hlt := (lt_length_of_lt_cuts h).2
  rw [Nat.succ_mul] at hlt
  rw [Fragment.text, List.length_take, List.length_drop]
  show min cols (word.length - k * cols) = cols
  omega

/-- A word that fits on a line is not cut. -/
theorem cuts_of_le (h : word.length ≤ cols) : cuts cols word = 0 := by
  refine Nat.eq_zero_of_not_pos fun hpos => ?_
  exact Nat.not_lt.2 h (lt_length_of_lt_cuts hpos).1

theorem text_zero (cols : Nat) (word : Line) : Fragment.text cols ⟨word, 0⟩ = word.take cols := by
  rw [Fragment.text, Nat.zero_mul, List.drop_zero]

theorem text_zero_of_le (h : word.length ≤ cols) : Fragment.text cols ⟨word, 0⟩ = word := by
  rw [text_zero, List.take_of_length_le h]

theorem fragments_of_le (h : word.length ≤ cols) : fragments cols word = [⟨word, 0⟩] := by
  rw [fragments, cuts_of_le h]
  rfl

theorem fragments_eq_cons (cols : Nat) (word : Line) :
    fragments cols word =
      ⟨word, 0⟩ :: (List.range' 1 (cuts cols word)).map (Fragment.mk word) := by
  rw [fragments, List.range_eq_range', List.range'_succ, List.map_cons]

/-- The fragments of a word are the pieces into which it is cut. -/
theorem map_text_fragments (hcols : 0 < cols) (word : Line) :
    (fragments cols word).map (Fragment.text cols) =
      (chop cols word).1 ++ [(chop cols word).2] := by
  have hmap : ∀ w, (fragments cols w).map (Fragment.text cols) =
      (List.range (cuts cols w + 1)).map fun i => Fragment.text cols ⟨w, i⟩ :=
    fun w => List.map_map ..
  fun_induction chop cols word with
  | case1 word h full last heq ih =>
    rw [heq] at ih
    have hlong : cols < word.length := Nat.lt_of_not_le (mt List.drop_eq_nil_iff.2 h.2)
    have hcuts : cuts cols word = cuts cols (word.drop cols) + 1 := by
      have hlength : word.length - 1 = (word.drop cols).length - 1 + cols := by
        rw [List.length_drop]
        omega
      rw [cuts, hlength, Nat.add_div_right _ hcols]
      rfl
    -- The fragments behind the first one are those of the rest of the word.
    have hrest : ∀ i,
        Fragment.text cols ⟨word, i + 1⟩ = Fragment.text cols ⟨word.drop cols, i⟩ := by
      intro i
      rw [Fragment.text, Fragment.text, List.drop_drop, Nat.succ_mul, Nat.add_comm]
    rw [List.cons_append, ← ih, hmap, hmap, hcuts, List.range_succ_eq_map, List.map_cons,
      List.map_map]
    exact congr (congrArg List.cons (text_zero cols word)) (List.map_congr_left fun i _ => hrest i)
  | case2 word h =>
    have hdrop : word.drop cols = [] := Classical.byContradiction fun hne => h ⟨hcols, hne⟩
    have hfits : word.length ≤ cols := List.drop_eq_nil_iff.1 hdrop
    rw [fragments_of_le hfits, List.map_singleton, text_zero_of_le hfits, List.nil_append]

theorem flatten_map_text_fragments (hcols : 0 < cols) (word : Line) :
    ((fragments cols word).map (Fragment.text cols)).flatten = word := by
  rw [map_text_fragments hcols, List.flatten_append, List.flatten_singleton, chop_flatten]

/-- A word that is longer than a line is cut into fragments as long as a line, one at least, and a
last one that is not empty. -/
theorem fragments_of_lt (hcols : 0 < cols) (h : cols < word.length) :
    ∃ full last, fragments cols word = full ++ [last] ∧ full ≠ [] ∧
      (∀ p ∈ full, (p.text cols).length = cols) ∧
      1 ≤ (last.text cols).length ∧ (last.text cols).length ≤ cols := by
  have hcut : 0 < cuts cols word := Nat.div_pos (by omega) hcols
  have hbefore : cuts cols word * cols ≤ word.length - 1 := Nat.div_mul_le_self ..
  have hlength : (Fragment.text cols ⟨word, cuts cols word⟩).length =
      min cols (word.length - cuts cols word * cols) := by
    rw [Fragment.text, List.length_take, List.length_drop]
  refine ⟨(List.range (cuts cols word)).map (Fragment.mk word), ⟨word, cuts cols word⟩, ?_, ?_,
    ?_, ?_⟩
  · rw [fragments, List.range_succ, List.map_append, List.map_singleton]
  · rw [ne_eq, List.map_eq_nil_iff, List.range_eq_nil]
    exact Nat.ne_of_gt hcut
  · intro p hp
    obtain ⟨i, hi, rfl⟩ := List.mem_map.1 hp
    exact length_text_of_lt_cuts (List.mem_range.1 hi)
  · omega

/-! ## Rows and breaks -/

theorem lineOf_append_singleton (cols : Nat) (row : List Fragment) (p : Fragment) :
    lineOf cols (row ++ [p]) = appendWord (lineOf cols row) (p.text cols) := by
  rw [lineOf, joined, List.map_append, List.foldl_append]
  rfl

theorem lineOf_singleton (cols : Nat) (p : Fragment) : lineOf cols [p] = p.text cols := rfl

theorem prefix_joined (line : Line) (words : List Line) : line <+: joined line words := by
  induction words generalizing line with
  | nil => exact List.prefix_rfl
  | cons w rest ih =>
    refine List.IsPrefix.trans ?_ (ih (appendWord line w))
    cases line with
    | nil => exact List.nil_prefix
    | cons c others => exact List.prefix_append ..

/-- A line begins with its first fragment. -/
theorem text_prefix_lineOf (h : row.head? = some p) : p.text cols <+: lineOf cols row := by
  obtain ⟨rest, rfl⟩ := List.head?_eq_some_iff.1 h
  exact prefix_joined ..

/-- A break stays forced if more is added to the row behind it. -/
theorem Forced.append (h : Forced cols row next) (more : List Fragment) :
    Forced cols row (next ++ more) := by
  have hhead : ∀ p, next.head? = some p → (next ++ more).head? = some p := by
    intro p hp
    rw [List.head?_append, hp, Option.some_or]
  cases h with
  | cut word k hlong hlast hline hfull hnext =>
    exact .cut word k hlong hlast hline hfull (hhead _ hnext)
  | moved word hnext hover => exact .moved word (hhead _ hnext) hover

theorem fresh_nil (cols : Nat) : Fresh cols [] := by
  intro before p hprefix
  exact absurd (List.prefix_nil.1 hprefix) (by simp)

theorem Fresh.append_singleton (hrow : Fresh cols row)
    (hp : cols < p.word.length → lineOf cols row = []) : Fresh cols (row ++ [p]) := by
  intro before q hprefix hlong
  rcases List.prefix_concat_iff.1 hprefix with heq | hprefix
  · obtain ⟨rfl, hlast⟩ := List.append_inj' heq rfl
    cases hlast
    exact hp hlong
  · exact hrow before q hprefix hlong

/-- `rows` are the open row with more fragments behind it, broken where they must be. -/
structure Laid (cols : Nat) (row more : List Fragment) (rows : List (List Fragment)) : Prop where
  /-- The first row starts with what was on the open one. -/
  starts : ∃ added, rows.head? = some (row ++ added)
  /-- Nothing is lost, doubled or moved. -/
  flatten_eq : rows.flatten = row ++ more
  /-- No break could be avoided. -/
  forced : rows.IsChain (Forced cols)
  /-- The fragments of words that are longer than a line start their lines. -/
  fresh : ∀ r ∈ rows, Fresh cols r

/-- What is laid out behind the last row continues it. -/
theorem Laid.append {opened more more' : List Fragment} {finished rows : List (List Fragment)}
    (h : Laid cols row more (finished ++ [opened])) (h' : Laid cols opened more' rows) :
    Laid cols row (more ++ more') (finished ++ rows) where
  starts := by
    obtain ⟨added, hadded⟩ := h.starts
    obtain ⟨added', hadded'⟩ := h'.starts
    -- If no row is finished, the open one is still the first.
    cases finished with
    | nil =>
      obtain rfl : opened = row ++ added := Option.some.inj hadded
      exact ⟨added ++ added', by rw [List.nil_append, hadded', List.append_assoc]⟩
    | cons first others => exact ⟨added, hadded⟩
  flatten_eq := by
    have hflatten := h.flatten_eq
    rw [List.flatten_append, List.flatten_singleton] at hflatten
    rw [List.flatten_append, h'.flatten_eq, ← List.append_assoc, hflatten, List.append_assoc]
  forced := by
    obtain ⟨hfinished, -, hlast⟩ := List.isChain_append.1 h.forced
    refine hfinished.append h'.forced fun r hr s hs => ?_
    -- The last break was ahead of the row that is now longer.
    obtain ⟨added, hadded⟩ := h'.starts
    obtain rfl : opened ++ added = s := Option.some.inj (hadded.symm.trans hs)
    exact (hlast r hr opened rfl).append added
  fresh r hr := by
    rcases List.mem_append.1 hr with hr | hr
    · exact h.fresh r (List.mem_append_left _ hr)
    · exact h'.fresh r hr

/-! ## One word -/

/-- The rows of a word that is cut behind an open row: its first fragment goes there, and every
other one starts a row. -/
def cutRows (cols : Nat) (row : List Fragment) (word : Line) : List (List Fragment) :=
  (row ++ [⟨word, 0⟩]) :: (List.range' 1 (cuts cols word)).map fun i => [⟨word, i⟩]

/-- A row that is nothing but a fragment is followed by the fragments behind it. -/
theorem isChain_cut {n : Nat} (hlast : row.getLast? = some ⟨word, k⟩)
    (hline : lineOf cols row = Fragment.text cols ⟨word, k⟩) (hn : k + n ≤ cuts cols word) :
    (row :: (List.range' (k + 1) n).map fun i => [⟨word, i⟩]).IsChain (Forced cols) := by
  -- The induction is on the fragments that are left, for any row with the one before them.
  induction n generalizing row k with
  | zero => exact List.isChain_singleton row
  | succ n ih =>
    have hk : k < cuts cols word := by omega
    have hfull : (lineOf cols row).length = cols := by rw [hline, length_text_of_lt_cuts hk]
    have hbreak : Forced cols row [⟨word, k + 1⟩] :=
      .cut word k (lt_length_of_lt_cuts hk).1 hlast hline hfull rfl
    rw [List.range'_succ, List.map_cons]
    exact .cons_cons hbreak (ih rfl (lineOf_singleton ..) (by omega))

/-- Behind a row without a character a word may be cut. -/
theorem laid_cutRows (hline : lineOf cols row = []) (hfresh : Fresh cols row) (word : Line) :
    Laid cols row (fragments cols word) (cutRows cols row word) where
  starts := ⟨[⟨word, 0⟩], rfl⟩
  flatten_eq := by
    rw [cutRows, fragments_eq_cons, List.flatten_cons, List.append_assoc, ← List.flatMap_def]
    exact congrArg (row ++ ⟨word, 0⟩ :: ·) (List.flatMap_pure_eq_map ..)
  forced := by
    -- The first row is nothing but the first fragment, since the row was without a character.
    refine isChain_cut List.getLast?_concat ?_ (Nat.le_of_eq (Nat.zero_add _))
    rw [lineOf_append_singleton, hline]
    rfl
  fresh r hr := by
    rcases List.mem_cons.1 hr with rfl | hr
    · exact hfresh.append_singleton fun _ => hline
    · obtain ⟨i, -, rfl⟩ := List.mem_map.1 hr
      exact (fresh_nil cols).append_singleton fun _ => rfl

/-- The lines of these rows are the pieces of the word. -/
theorem map_lineOf_cutRows (hcols : 0 < cols) (hline : lineOf cols row = []) (word : Line) :
    (cutRows cols row word).map (lineOf cols) = (chop cols word).1 ++ [(chop cols word).2] := by
  rw [← map_text_fragments hcols, fragments_eq_cons, cutRows, List.map_cons, List.map_cons,
    List.map_map, List.map_map, lineOf_append_singleton, hline]
  rfl

/-- Placing a word behind an open row continues it with the fragments of the word. -/
theorem laid_place (hcols : 0 < cols) (hfresh : Fresh cols row) (word : Line) :
    ∃ rows, Laid cols row (fragments cols word) rows ∧
      (place cols (lineOf cols row) word).1 ++ [(place cols (lineOf cols row) word).2] =
        rows.map (lineOf cols) := by
  rw [place]
  by_cases hfits : needed (lineOf cols row) word ≤ cols
  -- The word goes on the open line as a whole.
  · have hword : word.length ≤ cols := by
      refine Nat.le_trans ?_ hfits
      rw [needed]
      split <;> omega
    rw [if_pos hfits, fragments_of_le hword]
    refine ⟨[row ++ [⟨word, 0⟩]], ⟨⟨_, rfl⟩, List.append_nil _, .singleton _, fun r hr => ?_⟩, ?_⟩
    · rw [List.mem_singleton.1 hr]
      exact hfresh.append_singleton fun hlong => absurd hword (Nat.not_le.2 hlong)
    · rw [List.map_singleton, lineOf_append_singleton, text_zero_of_le hword]
      rfl
  rw [if_neg hfits]
  by_cases hline : lineOf cols row = []
  -- The word is cut, and the open line is still empty.
  · refine ⟨cutRows cols row word, laid_cutRows hline hfresh word, ?_⟩
    rw [map_lineOf_cutRows hcols hline, hline]
    rfl
  -- The open line is finished, and the word starts a line of its own.
  · have hcut : Laid cols [] (fragments cols word) (cutRows cols [] word) :=
      laid_cutRows rfl (fresh_nil cols) word
    have hnonempty : (lineOf cols row).isEmpty = false := by
      rw [List.isEmpty_eq_false_iff]
      exact hline
    have hover : cols < (lineOf cols row).length + 1 + (Fragment.text cols ⟨word, 0⟩).length := by
      rw [needed, hnonempty, if_neg Bool.false_ne_true] at hfits
      rw [text_zero, List.length_take]
      omega
    refine ⟨row :: cutRows cols [] word, ⟨⟨[], by rw [List.append_nil]; rfl⟩, ?_, ?_, ?_⟩, ?_⟩
    · rw [List.flatten_cons, hcut.flatten_eq, List.nil_append]
    · exact .cons_cons (.moved word rfl hover) hcut.forced
    · intro r hr
      rcases List.mem_cons.1 hr with rfl | hr
      · exact hfresh
      · exact hcut.fresh r hr
    · rw [List.map_cons, map_lineOf_cutRows hcols rfl, hnonempty, if_neg Bool.false_ne_true]
      rfl

/-! ## All words -/

/-- Packing words behind an open row continues it with the fragments of all words. The induction is
on the words, for any open row. -/
theorem exists_laid_packWords (hcols : 0 < cols) (hfresh : Fresh cols row) (words : List Line) :
    ∃ rows, Laid cols row (words.flatMap (fragments cols)) rows ∧
      packWords cols (lineOf cols row) words = rows.map (lineOf cols) := by
  induction words generalizing row with
  | nil =>
    refine ⟨[row], ⟨⟨[], by rw [List.append_nil]; rfl⟩, rfl, .singleton _, fun r hr => ?_⟩, rfl⟩
    rw [List.mem_singleton.1 hr]
    exact hfresh
  | cons word rest ih =>
    obtain ⟨placed, hplaced, hlines⟩ := laid_place hcols hfresh word
    -- The last of these rows is the one left open.
    obtain ⟨finished, last, rfl, hfinished, hlast⟩ := List.map_eq_append_iff.1 hlines.symm
    obtain ⟨opened, rfl, hopened⟩ := List.map_eq_singleton_iff.1 hlast
    obtain ⟨rows, hrows, hpacked⟩ :=
      ih (hplaced.fresh opened (List.mem_append_right _ (List.mem_singleton_self _)))
    refine ⟨finished ++ rows, hplaced.append hrows, ?_⟩
    show (place cols (lineOf cols row) word).1 ++
      packWords cols (place cols (lineOf cols row) word).2 rest = _
    rw [← hfinished, ← hopened, hpacked, List.map_append]

/-- The rows of fragments of a paragraph, in as many columns as there are. -/
structure Breaks (cols : Nat) (paragraph : Line) (rows : List (List Fragment)) : Prop where
  /-- Each row is one line. -/
  lines_eq : wrapParagraph cols paragraph = rows.map (lineOf cols)
  /-- The rows hold the fragments of the words, in order. -/
  fragments_eq : rows.flatten = (pieces ' ' paragraph).flatMap (fragments cols)
  /-- A line begins with its first fragment. -/
  begins : ∀ row ∈ rows, ∀ p, row.head? = some p → p.text cols <+: lineOf cols row
  /-- No break could be avoided. -/
  forced : rows.IsChain (Forced cols)
  /-- The fragments of words that are longer than a line start their lines. -/
  fresh : ∀ row ∈ rows, Fresh cols row

theorem exists_breaks (hcols : 0 < cols) (paragraph : Line) :
    ∃ rows, Breaks cols paragraph rows := by
  obtain ⟨rows, hrows, hlines⟩ :=
    exists_laid_packWords hcols (fresh_nil cols) (pieces ' ' paragraph)
  exact ⟨rows, hlines, hrows.flatten_eq, fun row _ p hp => text_prefix_lineOf hp, hrows.forced,
    hrows.fresh⟩

/-- Every line that a paragraph of a text is broken into, at one column for each six pixels of the
width, or one column if the width has less, holds fragments of the paragraph's words, in order, and
begins with the first of them. Between two lines there is either a cut within a word that is longer
than a line, the first line being one full fragment of it and the second beginning with the next
fragment, or the second line begins with a word, or the first fragment of one, for which the first
line has no room. A word that fits on a line is one fragment. A longer one is cut into fragments as
long as a line and a last one that is not empty, and each of these starts a line. -/
theorem every_break_is_forced (text : List Char) (wrap : Int) :
    let cols := columns wrap
    (cols : Int) = max (wrap.tdiv 6) 1 ∧
      (∃ blocks, lines text (some wrap) = blocks.flatten.map (lineOf cols) ∧
        List.Forall₂ (Breaks cols) (pieces '\n' text) blocks) ∧
      ∀ word : Line,
        ((fragments cols word).map (Fragment.text cols)).flatten = word ∧
          (word.length ≤ cols → fragments cols word = [⟨word, 0⟩]) ∧
          (cols < word.length →
            ∃ full last, fragments cols word = full ++ [last] ∧ full ≠ [] ∧
              (∀ p ∈ full, (p.text cols).length = cols) ∧
              1 ≤ (last.text cols).length ∧ (last.text cols).length ≤ cols) := by
  intro cols
  have hcols : 0 < cols := columns_pos wrap
  choose rows hrows using fun paragraph => exists_breaks hcols paragraph
  refine ⟨Int.toNat_of_nonneg (by omega), ⟨(pieces '\n' text).map rows, ?_, ?_⟩, fun word =>
    ⟨flatten_map_text_fragments hcols word, fragments_of_le, fragments_of_lt hcols⟩⟩
  · rw [lines_some, List.map_flatten, List.map_map]
    exact congrArg List.flatten (List.map_congr_left fun paragraph _ => (hrows paragraph).lines_eq)
  · rw [List.forall₂_map_right_iff, List.forall₂_same]
    exact fun paragraph _ => hrows paragraph

/-- The empty word between two spaces may end up ahead of a word on its line, and a long word leaves
the line that it comes on. -/
example : lines "abc  d efghijkl m".toList (some 18) =
    ["abc".toList, "d".toList, "efg".toList, "hij".toList, "kl".toList, "m".toList] := by
  decide +kernel

end Handheld.Text
