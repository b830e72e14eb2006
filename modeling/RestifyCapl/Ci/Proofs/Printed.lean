/-
What the script reads of lines that were printed. `Get-GitOutput` trims
all it gets, so the lines come back as they are only where the first one
does not begin, and the last one does not end, with white space; then
they split again (`lines_trim_printLines`, `splitWords_trim_printLines`).
-/
import RestifyCapl.Ci.Repository
import RestifyCapl.Lib.Trim

namespace RestifyCapl.Ci

open Lib (dropWhile_append_trimmed rdropWhile_append_trimmed)

variable {t : Text} {ls : List Text}

-- ================================================================ trimming

/-- Neither end is white space. -/
structure Trimmed (t : Text) : Prop where
  first : ∀ c ∈ t.head?, isWhiteSpace c = false
  last : ∀ c ∈ t.getLast?, isWhiteSpace c = false

theorem trimEnd_self (h : ∀ c ∈ t.getLast?, isWhiteSpace c = false) :
    trimEnd t = t := by
  unfold trimEnd
  rw [List.rdropWhile_eq_self_iff]
  intro hne
  have := h _ (List.getLast?_eq_getLast_of_ne_nil hne)
  simpa using this

theorem dropWhile_self (h : ∀ c ∈ t.head?, isWhiteSpace c = false) :
    t.dropWhile isWhiteSpace = t := by
  cases t with
  | nil => rfl
  | cons c t =>
      have hc := h c rfl
      rw [List.dropWhile_cons_of_neg (by simpa using hc)]

theorem Trimmed.trim (h : Trimmed t) : trim t = t := by
  unfold Ci.trim
  rw [dropWhile_self h.first, trimEnd_self h.last]

/-- The end of the last line goes. -/
theorem Trimmed.trim_line (h : Trimmed t) : Ci.trim (t ++ ['\n']) = t := by
  cases t with
  | nil => decide
  | cons c t =>
      unfold Ci.trim
      rw [dropWhile_self (t := c :: t ++ ['\n']) h.first]
      unfold trimEnd
      rw [List.rdropWhile_concat_pos _ _ _ (by decide)]
      exact trimEnd_self h.last

-- ================================================================== hashes

theorem not_mem_of_isSha {sha : Text} (hsha : IsSha sha) {c : Char}
    (hc : isHex c = false) : c ∉ sha := by
  intro hmem
  rw [hsha.2 c hmem] at hc
  cases hc

theorem sha_ne_nil {sha : Text} (hsha : IsSha sha) : sha ≠ [] := by
  rintro rfl
  exact absurd hsha.1 (by decide)

theorem isHex_clean {c : Char} (h : isHex c = true) :
    isWhiteSpace c = false := by
  simp only [isHex, isAsciiDigit, inRange, Bool.or_eq_true, Bool.and_eq_true,
    decide_eq_true_eq] at h
  simp only [isWhiteSpace, inRange, Bool.or_eq_false_iff, Bool.and_eq_false_iff,
    decide_eq_false_iff_not, beq_eq_false_iff_ne]
  omega

theorem isPlain_hex {c : Char} (h : isHex c = true) : isPlain c = true := by
  simp only [isHex, isAsciiDigit, inRange, Bool.or_eq_true, Bool.and_eq_true,
    decide_eq_true_eq] at h
  simp only [isPlain, inRange, Bool.or_eq_true, Bool.and_eq_true,
    decide_eq_true_eq, beq_iff_eq]
  omega

theorem isSha_trimmed {sha : Text} (hsha : IsSha sha) : Trimmed sha where
  first c hc := isHex_clean (hsha.2 c (List.mem_of_mem_head? hc))
  last c hc := isHex_clean (hsha.2 c (List.mem_of_mem_getLast? hc))

-- =================================================================== lines

theorem joinLines_snoc (ls : List Text) (l : Text) :
    joinLines (ls ++ [l]) = printLines ls ++ l := by
  induction ls with
  | nil => simp [joinLines, printLines, List.intercalate]
  | cons x ls ih =>
      have hcons : joinLines (x :: (ls ++ [l]))
          = x ++ '\n' :: joinLines (ls ++ [l]) := by
        cases ls <;> simp [joinLines, List.intercalate]
      rw [List.cons_append, hcons, ih]
      simp [printLines]

theorem printLines_snoc (ls : List Text) (l : Text) :
    printLines (ls ++ [l]) = joinLines (ls ++ [l]) ++ ['\n'] := by
  rw [joinLines_snoc]
  simp [printLines]

/-- A text that begins, or ends, with something else than white space. -/
def StartsClean (t : Text) : Prop := ∃ c ∈ t.head?, isWhiteSpace c = false

def EndsClean (t : Text) : Prop := ∃ c ∈ t.getLast?, isWhiteSpace c = false

theorem trimmed_joinLines (hfirst : ∀ l ∈ ls.head?, StartsClean l)
    (hlast : ∀ l ∈ ls.getLast?, EndsClean l) : Trimmed (joinLines ls) where
  first := by
    cases ls with
    | nil => exact nofun
    | cons l ls =>
        obtain ⟨c, hc, hclean⟩ := hfirst l rfl
        have hjoin : (joinLines (l :: ls)).head? = l.head? := by
          have hprefix : ∃ rest, joinLines (l :: ls) = l ++ rest := by
            cases ls <;> simp [joinLines, List.intercalate]
          obtain ⟨rest, hrest⟩ := hprefix
          rw [hrest, List.head?_append, hc]
          rfl
        intro d hd
        rw [hjoin, hc] at hd
        cases hd
        exact hclean
  last := by
    rcases List.eq_nil_or_concat' ls with rfl | ⟨ls, l, rfl⟩
    · exact nofun
    · obtain ⟨c, hc, hclean⟩ := hlast l (by simp)
      intro d hd
      rw [joinLines_snoc, List.getLast?_append, hc] at hd
      cases hd
      exact hclean

theorem trim_printLines (hfirst : ∀ l ∈ ls.head?, StartsClean l)
    (hlast : ∀ l ∈ ls.getLast?, EndsClean l) :
    trim (printLines ls) = joinLines ls := by
  have htrimmed := trimmed_joinLines hfirst hlast
  rcases List.eq_nil_or_concat' ls with rfl | ⟨ls, l, rfl⟩
  · rfl
  · rw [printLines_snoc]
    exact htrimmed.trim_line

/-- Lines that are trimmed at their ends come back. -/
theorem lines_trim_printLines (hne : ls ≠ [])
    (hfirst : ∀ l ∈ ls.head?, StartsClean l)
    (hlast : ∀ l ∈ ls.getLast?, EndsClean l) (hline : ∀ l ∈ ls, '\n' ∉ l) :
    lines (trim (printLines ls)) = ls := by
  rw [trim_printLines hfirst hlast]
  exact List.splitOn_intercalate '\n' hline hne

/-- What is read begins as the first line does, where that is trimmed. -/
theorem trim_printLines_start {start : Text} (h : Trimmed start)
    (hne : start ≠ []) (rest : Text) (ls : List Text) :
    ∃ more, trim (printLines ((start ++ rest) :: ls)) = start ++ more := by
  have hprint : printLines ((start ++ rest) :: ls)
      = [] ++ (start ++ (rest ++ '\n' :: printLines ls)) := by
    simp [printLines]
  have hpart : Lib.Trimmed isWhiteSpace start := ⟨h.first, h.last⟩
  refine ⟨(rest ++ '\n' :: printLines ls).rdropWhile isWhiteSpace, ?_⟩
  unfold trim trimEnd
  rw [hprint, dropWhile_append_trimmed hpart hne,
    rdropWhile_append_trimmed hpart hne]
  rfl

-- =================================================================== words

theorem splitWords_word (h : IsWord t) : splitWords t = [t] := by
  have hsplit : t.splitOnP isWordBlank = [t] := by
    apply List.splitOnP_eq_singleton
    intro c hc
    simpa using h.2 c hc
  rw [splitWords, hsplit, List.filter_cons_of_pos, List.filter_nil]
  simpa using h.1

theorem splitWords_append {b : Char} (hb : isWordBlank b = true)
    (t rest : Text) :
    splitWords (t ++ b :: rest) = splitWords t ++ splitWords rest := by
  unfold splitWords
  rw [List.splitOnP_append_cons _ _ hb, List.filter_append]

/-- A word between blanks is one of the words. -/
theorem mem_splitWords {word before after : Text} (hword : IsWord word)
    (hbefore : ∀ c ∈ before.getLast?, isWordBlank c = true)
    (hafter : ∀ c ∈ after.head?, isWordBlank c = true) :
    word ∈ splitWords (before ++ (word ++ after)) := by
  have hlast : word ∈ splitWords (word ++ after) := by
    cases after with
    | nil => simp [splitWords_word hword]
    | cons c after =>
        rw [splitWords_append (hafter c rfl), splitWords_word hword]
        exact List.mem_cons_self
  rcases List.eq_nil_or_concat' before with rfl | ⟨before, c, rfl⟩
  · exact hlast
  · rw [List.append_assoc, List.singleton_append,
      splitWords_append (hbefore c (by simp))]
    exact List.mem_append_right _ hlast

/-- A word without white space at its ends is read, whatever the trimming
takes from the first and the last line. -/
theorem mem_splitWords_trim {word : Text} (hword : IsWord word)
    (htrimmed : Trimmed word) (h : word ∈ ls) :
    word ∈ splitWords (trim (printLines ls)) := by
  obtain ⟨front, back, rfl⟩ := List.append_of_mem h
  have hprint : printLines (front ++ word :: back)
      = printLines front ++ (word ++ '\n' :: printLines back) := by
    simp [printLines]
  have htrim : trim (printLines (front ++ word :: back))
      = (printLines front).dropWhile isWhiteSpace
        ++ (word ++ ('\n' :: printLines back).rdropWhile isWhiteSpace) := by
    have hpart : Lib.Trimmed isWhiteSpace word :=
      ⟨htrimmed.first, htrimmed.last⟩
    rw [hprint]
    unfold trim trimEnd
    rw [dropWhile_append_trimmed hpart hword.1,
      rdropWhile_append_trimmed hpart hword.1]
  rw [htrim]
  apply mem_splitWords hword
  · intro c hc
    obtain ⟨blank, hfront⟩ := List.dropWhile_suffix isWhiteSpace
      (l := printLines front)
    have hlast : c ∈ (printLines front).getLast? := by
      rw [← hfront, List.getLast?_append, hc]
      rfl
    rcases List.eq_nil_or_concat' front with rfl | ⟨front, l, rfl⟩
    · cases hlast
    · rw [printLines_snoc, List.getLast?_concat] at hlast
      cases hlast
      rfl
  · intro c hc
    obtain ⟨blank, hback⟩ := List.rdropWhile_prefix isWhiteSpace
      (l := '\n' :: printLines back)
    have hhead : c ∈ ('\n' :: printLines back).head? := by
      rw [← hback, List.head?_append, hc]
      rfl
    cases hhead
    rfl

/-- Words, one a line, are read as these words. -/
theorem splitWords_joinLines (h : ∀ l ∈ ls, IsWord l) :
    splitWords (joinLines ls) = ls := by
  induction ls with
  | nil => rfl
  | cons l ls ih =>
      obtain ⟨hword, hls⟩ := List.forall_mem_cons.mp h
      cases ls with
      | nil =>
          have hjoin : joinLines [l] = l := by simp [joinLines, List.intercalate]
          rw [hjoin, splitWords_word hword]
      | cons l' ls =>
          have hjoin : joinLines (l :: l' :: ls)
              = l ++ '\n' :: joinLines (l' :: ls) := by
            simp [joinLines, List.intercalate]
          rw [hjoin, splitWords_append (by decide), splitWords_word hword,
            ih hls]
          rfl

end RestifyCapl.Ci
