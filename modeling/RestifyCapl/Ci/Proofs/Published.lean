/-
What is generated is what is published. The section that `generate` writes
is found again by its hash, ends where it was written to end, and without
its heading, Development and the blank lines around it is the preview of
`pr-body` (`generated_is_published`).

A URL may end with a line feed (`IsRepoArgument`), and then an entry is two
lines of the file: `written` are the lines of the file that the lines of a
section become.
-/
import RestifyCapl.Ci.Notes
import RestifyCapl.Ci.Proofs.Levels
import RestifyCapl.Lib.Trim

namespace RestifyCapl.Ci

open Lib

variable {t line cr entry : Text} {ls entries : List Text}

-- ================================================================ the lines

theorem lines_line (h : '\n' ∉ t) : lines t = [t] :=
  List.splitOn_eq_singleton h

theorem lines_append_newline (a b : Text) :
    lines (a ++ '\n' :: b) = lines a ++ lines b :=
  List.splitOn_append_cons_self a b

theorem joinLines_lines (t : Text) : joinLines (lines t) = t :=
  List.intercalate_splitOn '\n'

theorem lines_joinLines (h : ls ≠ []) :
    lines (joinLines ls) = ls.flatMap lines :=
  splitOn_intercalate_flatMap '\n' h

theorem flatMap_lines (h : ∀ l ∈ ls, '\n' ∉ l) : ls.flatMap lines = ls := by
  induction ls with
  | nil => rfl
  | cons l ls ih =>
      obtain ⟨hl, hls⟩ := List.forall_mem_cons.mp h
      rw [List.flatMap_cons, lines_line hl, ih hls]
      rfl

/-- A line ending goes to the last line. -/
theorem lines_append (hcr : IsCr cr) (t : Text) : ∃ ls last,
    lines t = ls ++ [last] ∧ lines (t ++ cr) = ls ++ [last ++ cr] :=
  splitOn_append_of_not_mem hcr.oneLine t

theorem mem_lines_append (hcr : IsCr cr) (h : line ∈ lines (t ++ cr)) :
    ∃ l ∈ lines t, line = l ∨ line = l ++ cr := by
  obtain ⟨ls, last, ht, happend⟩ := lines_append hcr t
  rw [happend] at h
  rw [ht]
  rcases List.mem_append.mp h with h | h
  · exact ⟨line, List.mem_append_left _ h, Or.inl rfl⟩
  · exact ⟨last, by simp, Or.inr (List.mem_singleton.mp h)⟩

theorem trimEndCr_append (hcr : IsCr cr) (h : t.getLast? ≠ some '\r') :
    trimEndCr (t ++ cr) = t := by
  have hself : trimEndCr t = t := by
    unfold trimEndCr
    rw [List.rdropWhile_eq_self_iff]
    intro hne
    rw [beq_iff_eq]
    intro hlast
    apply h
    rw [List.getLast?_eq_getLast_of_ne_nil hne, hlast]
  rcases hcr with rfl | rfl
  · rw [List.append_nil]
    exact hself
  · unfold trimEndCr at hself ⊢
    rw [List.rdropWhile_concat_pos _ _ _ (by decide)]
    exact hself

/-- The lines of a file that the lines of a section become. -/
def written (cr : Text) (ls : List Text) : List Text :=
  (ls.map (· ++ cr)).flatMap lines

@[simp] theorem written_nil : written cr [] = [] := rfl

@[simp] theorem written_cons (l : Text) (ls : List Text) :
    written cr (l :: ls) = lines (l ++ cr) ++ written cr ls := by
  unfold written
  rw [List.map_cons, List.flatMap_cons]

@[simp] theorem written_append (ls ls' : List Text) :
    written cr (ls ++ ls') = written cr ls ++ written cr ls' := by
  unfold written
  rw [List.map_append, List.flatMap_append]

theorem mem_written : line ∈ written cr ls ↔ ∃ l ∈ ls, line ∈ lines (l ++ cr) := by
  unfold written
  simp

/-- The line endings go again. -/
theorem map_trimEndCr_written (hcr : IsCr cr)
    (h : ∀ l ∈ ls, ∀ line ∈ lines l, line.getLast? ≠ some '\r') :
    (written cr ls).map trimEndCr = ls.flatMap lines := by
  induction ls with
  | nil => rfl
  | cons l ls ih =>
      obtain ⟨hl, hls⟩ := List.forall_mem_cons.mp h
      obtain ⟨before, last, hlines, happend⟩ := lines_append hcr l
      have hbefore : before.map trimEndCr = before := by
        conv_rhs => rw [← List.map_id before]
        apply List.map_congr_left
        intro line hline
        have hend := hl line (hlines ▸ List.mem_append_left _ hline)
        have hself := trimEndCr_append (Or.inl rfl) hend
        rwa [List.append_nil] at hself
      have hlast := hl last (hlines ▸ List.mem_append_right _ (by simp))
      rw [written_cons, List.map_append, ih hls, List.flatMap_cons, happend, hlines,
        List.map_append, hbefore, List.map_singleton, trimEndCr_append hcr hlast]

-- ================================================================== entries

/-- How a line of an entry begins, in the file. -/
def Begins (line : Text) : Prop := ∃ c ∈ line.head?, c = '-' ∨ c = '/'

namespace Begins

theorem append (h : Begins line) (cr : Text) : Begins (line ++ cr) := by
  obtain ⟨c, hc, hcases⟩ := h
  refine ⟨c, ?_, hcases⟩
  rw [List.head?_append, hc]
  rfl

theorem head_ne (h : Begins line) {c : Char} (hdash : c ≠ '-') (hslash : c ≠ '/') :
    line.head? ≠ some c := by
  obtain ⟨d, hd, rfl | rfl⟩ := h
  · rw [hd]
    simpa using hdash.symm
  · rw [hd]
    simpa using hslash.symm

theorem neutral (h : Begins line) : Neutral line :=
  neutral_of_head (h.head_ne (by decide) (by decide))
    (h.head_ne (by decide) (by decide))

theorem notBlank (h : Begins line) : reBlank line = false := by
  obtain ⟨c, hc, hcases⟩ := h
  cases line with
  | nil => cases hc
  | cons d line =>
      cases hc
      rcases hcases with rfl | rfl
      · exact reBlank_cons (by decide) (by decide) (by decide)
      · exact reBlank_cons (by decide) (by decide) (by decide)

end Begins

theorem reH3_head (h : reH3 line = true) : line.head? = some '#' := by
  obtain ⟨rest, rfl⟩ := List.isPrefixOf_iff_prefix.mp h
  rfl

theorem reDev_head (h : reDev line = true) : line.head? = some '#' := by
  have hfound : ∀ {t found}, t <+: line → (if dropCr t = "### Development".toList
      then some () else none) = some found → line.head? = some '#' := by
    intro t found hstart h
    split at h
    next heq =>
      obtain ⟨rest, rfl⟩ := (dropCr_isPrefix t).trans hstart
      rw [heq]
      rfl
    next => cases h
  obtain ⟨found, hfind⟩ := Option.isSome_iff_exists.mp h
  rcases atEnd_some hfind with h | ⟨-, h⟩
  · exact hfound List.prefix_rfl h
  · exact hfound (List.dropLast_prefix line) h

namespace Begins

theorem not_reH3 (h : Begins line) : reH3 line = false := by
  by_contra hhead
  rw [Bool.not_eq_false] at hhead
  exact h.head_ne (by decide) (by decide) (reH3_head hhead)

theorem not_reDev (h : Begins line) : reDev line = false := by
  by_contra hhead
  rw [Bool.not_eq_false] at hhead
  exact h.head_ne (by decide) (by decide) (reDev_head hhead)

theorem hasText (h : Begins line) : hasText line = true := by
  unfold Ci.hasText
  rw [h.notBlank, h.not_reH3]
  rfl

end Begins

/-- An entry: where its lines begin and end. -/
structure Listed (entry : Text) : Prop where
  dash : "- ".toList <+: entry
  begins : ∀ line ∈ lines entry, Begins line
  ends : ∀ line ∈ lines entry, line.getLast? ≠ some '\r'

theorem listed_of_line (hdash : "- ".toList <+: entry) (hline : '\n' ∉ entry)
    (hend : entry.getLast? ≠ some '\r') : Listed entry := by
  refine ⟨hdash, ?_, ?_⟩
  · rw [lines_line hline]
    intro line hmem
    rw [List.mem_singleton.mp hmem]
    obtain ⟨rest, rfl⟩ := hdash
    exact ⟨'-', rfl, Or.inl rfl⟩
  · rw [lines_line hline]
    intro line hmem
    rwa [List.mem_singleton.mp hmem]

/-- An entry with a line feed in it. -/
theorem listed_of_lines {first second : Text} (hdash : "- ".toList <+: first)
    (hslash : second.head? = some '/') (hfirst : '\n' ∉ first)
    (hsecond : '\n' ∉ second) (hend : first.getLast? ≠ some '\r')
    (hend' : second.getLast? ≠ some '\r') : Listed (first ++ '\n' :: second) := by
  have hlisted := listed_of_line hdash hfirst hend
  have hlines : lines (first ++ '\n' :: second) = lines first ++ [second] := by
    rw [lines_append_newline, lines_line hsecond]
  refine ⟨hdash.trans (List.prefix_append _ _), ?_, ?_⟩
  · rw [hlines, List.forall_mem_append, List.forall_mem_singleton]
    exact ⟨hlisted.begins, '/', hslash, Or.inr rfl⟩
  · rw [hlines, List.forall_mem_append, List.forall_mem_singleton]
    exact ⟨hlisted.ends, hend'⟩

theorem IsRepoUrl.getLast_ne {url : Text} (h : IsRepoUrl url) (s : Text) :
    (s ++ url).getLast? ≠ some '\r' := by
  obtain ⟨owner, name, rfl, -, hname, -, hchars⟩ := h
  have hne : '/' :: name ≠ [] := List.cons_ne_nil _ _
  rw [← List.append_assoc, List.getLast?_append_of_ne_nil _ hne,
    List.getLast?_cons_of_ne_nil hname]
  intro hlast
  exact absurd (hchars _ (List.mem_of_getLast? hlast)) (by decide)

theorem listed_formatEntry {number : Nat} {repo : Text} (ht : '\n' ∉ t)
    (hend : number = 0 → t.getLast? ≠ some '\r') (hrepo : IsRepoArgument repo) :
    Listed (formatEntry t number repo) := by
  have hnumber := not_mem_format (c := '\n') (by decide) number
  unfold formatEntry
  dsimp only
  split
  next =>
    obtain ⟨url, hurl, rfl | rfl⟩ := hrepo
    · apply listed_of_line
      · simp
      · simp [ht, hurl.oneLine, hnumber]
      · rw [List.getLast?_append_of_ne_nil _ (by decide)]
        decide
    · have hsplit : "- ".toList ++ t ++ " ([#".toList ++ format number
            ++ "](".toList ++ (url ++ ['\n']) ++ "/pull/".toList ++ format number
            ++ "))".toList
          = ("- ".toList ++ t ++ " ([#".toList ++ format number ++ "](".toList
            ++ url) ++ '\n' :: ("/pull/".toList ++ format number
              ++ "))".toList) := by
        simp
      rw [hsplit]
      apply listed_of_lines
      · simp
      · rfl
      · simp [ht, hurl.oneLine, hnumber]
      · simp [hnumber]
      · exact hurl.getLast_ne _
      · rw [List.getLast?_append_of_ne_nil _ (by decide)]
        decide
  next hzero =>
    apply listed_of_line (List.prefix_append _ _)
    · simp [ht]
    · by_cases hne : t = []
      · rw [hne]
        decide
      · rw [List.getLast?_append_of_ne_nil _ hne]
        exact hend (by omega)

-- ================================================================ the range

theorem reSquash_last {text digits : Text} (h : reSquash t = some (text, digits)) :
    ∀ c ∈ text.getLast?, isWhiteSpace c = false := by
  refine of_atEnd ?_ h
  intro t h
  split at h
  next rest hrev =>
    dsimp only at h
    split at h
    next c more hrest =>
      split at h
      next hclean =>
        cases h
        intro d hd
        rw [List.getLast?_reverse, List.head?_cons] at hd
        cases hd
        exact hclean.2.2.1
      next => cases h
    next => cases h
  next => cases h

/-- The text of a subject does not end with white space. -/
theorem readSubject_last (subject : Text) :
    ∀ c ∈ (readSubject subject).text.getLast?, isWhiteSpace c = false := by
  unfold readSubject
  dsimp only
  split
  next text digits hsquash => exact reSquash_last hsquash
  next => exact (trimmed_trim isWhiteSpace subject).last

theorem getRange_last [Culture] {git : Git} {base : Text} {messages : PrMessages}
    {range : Range} (h : getRange git base messages = .ok range) :
    ∀ c ∈ range.commits, ∀ text ∈ c.texts, c.subject.number = 0 →
      text.getLast? ≠ some '\r' := by
  unfold getRange at h
  split at h
  next => cases h
  next log _ =>
    split at h
    next => cases h
    next out _ =>
      cases h
      intro c hc text htext hzero
      obtain ⟨e, -, rfl⟩ := List.mem_map.mp hc
      -- without a number no messages were read
      have hnone : (rangeCommit (splitWords out) messages e).messages = [] := by
        have hzero : (readSubject e.subject).number = 0 := hzero
        unfold rangeCommit messagesOf
        dsimp only
        rw [if_neg (by omega)]
      unfold RangeCommit.texts at htext
      rw [hnone, List.map_nil, List.mem_singleton] at htext
      rw [htext]
      intro hlast
      exact absurd (readSubject_last e.subject '\r' hlast) (by decide)

theorem listed_getEntries [Culture] {git : Git} {base repo : Text} {messages : PrMessages}
    {range : Range} (h : getRange git base messages = .ok range)
    (hrepo : IsRepoArgument repo) : (getEntries range repo).All Listed := by
  apply getEntries_all
  intro c hc text htext
  exact listed_formatEntry (getRange_line h c hc text htext)
    (getRange_last h c hc text htext) hrepo

-- ==================================================================== parts

variable {ls' published front tail : List Text} {title : String} {e : Entries}

/-- Lines from the title of a part to an entry. -/
structure IsListing (ls : List Text) : Prop where
  first : ∃ title, '\n' ∉ title ∧ ls.head? = some ("### ".toList ++ title)
  last : ∃ entry, Listed entry ∧ ls.getLast? = some entry

theorem IsListing.append (h : IsListing ls) (h' : IsListing ls') :
    IsListing (ls ++ [] :: ls') where
  first := by
    obtain ⟨title, htitle, hhead⟩ := h.first
    refine ⟨title, htitle, ?_⟩
    rw [List.head?_append, hhead]
    rfl
  last := by
    obtain ⟨entry, hentry, hlast⟩ := h'.last
    refine ⟨entry, hentry, ?_⟩
    rw [List.getLast?_append_of_ne_nil _ (List.cons_ne_nil _ _),
      List.getLast?_cons, hlast]
    rfl

/-- Parts of a section, each after a blank line. -/
def Parts (ls : List Text) : Prop :=
  ls = [] ∨ ∃ rest, ls = [] :: rest ∧ IsListing rest

theorem Parts.append (h : Parts ls) (h' : Parts ls') : Parts (ls ++ ls') := by
  rcases h with rfl | ⟨rest, rfl, hrest⟩
  · exact h'
  · rcases h' with rfl | ⟨rest', rfl, hrest'⟩
    · rw [List.append_nil]
      exact Or.inr ⟨rest, rfl, hrest⟩
    · exact Or.inr ⟨rest ++ [] :: rest', rfl, hrest.append hrest'⟩

theorem partLines_nil (title : String) : partLines title [] = [] := rfl

theorem partLines_of_ne_nil (h : entries ≠ []) :
    partLines title entries
      = [] :: ("### ".toList ++ title.toList) :: [] :: entries := by
  unfold partLines
  rw [if_neg (by simpa using h)]
  rfl

theorem parts_partLines (htitle : '\n' ∉ title.toList)
    (h : ∀ entry ∈ entries, Listed entry) : Parts (partLines title entries) := by
  by_cases hne : entries = []
  · rw [hne]
    exact Or.inl rfl
  · rw [partLines_of_ne_nil hne]
    refine Or.inr ⟨_, rfl, ⟨title.toList, htitle, rfl⟩, entries.getLast hne,
      h _ (List.getLast_mem hne), ?_⟩
    rw [List.getLast?_cons_of_ne_nil (List.cons_ne_nil _ _),
      List.getLast?_cons_of_ne_nil hne, List.getLast?_eq_getLast_of_ne_nil hne]

theorem notesPreview_eq (e : Entries) :
    notesPreview e = partLines "Breaking changes" e.breaking
      ++ partLines "Added" e.added ++ partLines "Fixed" e.fixed := by
  unfold notesPreview getSectionLines
  rw [partLines_nil, List.append_nil]
  rfl

/-- A section is its heading, the preview, and Development. -/
theorem getSectionLines_eq (e : Entries) (heading : Text) :
    getSectionLines e heading = heading
      :: (notesPreview e ++ partLines "Development" e.development) := by
  rw [notesPreview_eq]
  rfl

theorem parts_notesPreview (he : e.All Listed) : Parts (notesPreview e) := by
  rw [notesPreview_eq]
  have hbreaking : Parts (partLines "Breaking changes" e.breaking) :=
    parts_partLines (by decide) he.breaking
  have hadded : Parts (partLines "Added" e.added) :=
    parts_partLines (by decide) he.added
  have hfixed : Parts (partLines "Fixed" e.fixed) :=
    parts_partLines (by decide) he.fixed
  exact (hbreaking.append hadded).append hfixed

theorem parts_development (he : e.All Listed) :
    Parts (partLines "Development" e.development) :=
  parts_partLines (by decide) he.development

/-- Where something is released, something is published. -/
theorem exists_published (he : e.All Listed) (hreleased : e.Released) :
    ∃ published, notesPreview e = [] :: published ∧ IsListing published := by
  rcases parts_notesPreview he with hnil | hpublished
  · exfalso
    rw [notesPreview_eq, List.append_eq_nil_iff, List.append_eq_nil_iff] at hnil
    have hempty : ∀ {title : String} {entries : List Text},
        partLines title entries = [] → entries = [] := by
      intro title entries h
      by_contra hne
      rw [partLines_of_ne_nil hne] at h
      cases h
    rcases hreleased with h | h | h
    · exact h (hempty hnil.1.1)
    · exact h (hempty hnil.1.2)
    · exact h (hempty hnil.2)
  · exact hpublished

-- ==================================================== the parts in the file

theorem written_entries (hcr : IsCr cr) (h : ∀ entry ∈ entries, Listed entry)
    (hline : line ∈ written cr entries) : Begins line := by
  obtain ⟨entry, hentry, hmem⟩ := mem_written.mp hline
  obtain ⟨l, hl, rfl | rfl⟩ := mem_lines_append hcr hmem
  · exact (h entry hentry).begins _ hl
  · exact ((h entry hentry).begins _ hl).append cr

theorem written_partLines (hcr : IsCr cr) (htitle : '\n' ∉ title.toList)
    (hne : entries ≠ []) :
    written cr (partLines title entries)
      = cr :: ("### ".toList ++ title.toList ++ cr) :: cr :: written cr entries := by
  have htitleLine : '\n' ∉ "### ".toList ++ title.toList ++ cr := by
    simp [htitle, hcr.oneLine]
  rw [partLines_of_ne_nil hne, written_cons, written_cons, written_cons,
    lines_line htitleLine, List.nil_append, lines_line hcr.oneLine]
  rfl

theorem mem_written_partLines (hcr : IsCr cr) (htitle : '\n' ∉ title.toList)
    (h : ∀ entry ∈ entries, Listed entry)
    (hline : line ∈ written cr (partLines title entries)) :
    line = cr ∨ line = "### ".toList ++ title.toList ++ cr ∨ Begins line := by
  by_cases hne : entries = []
  · rw [hne] at hline
    cases hline
  · rw [written_partLines hcr htitle hne] at hline
    simp only [List.mem_cons] at hline
    rcases hline with rfl | rfl | rfl | hline
    · exact Or.inl rfl
    · exact Or.inr (Or.inl rfl)
    · exact Or.inl rfl
    · exact Or.inr (Or.inr (written_entries hcr h hline))

theorem neutral_partLines (hcr : IsCr cr) (htitle : '\n' ∉ title.toList)
    (h : ∀ entry ∈ entries, Listed entry)
    (hline : line ∈ written cr (partLines title entries)) : Neutral line := by
  rcases mem_written_partLines hcr htitle h hline with rfl | rfl | hbegins
  · exact hcr.neutral
  · exact (BodyLine.title title.toList).neutral hcr
  · exact hbegins.neutral

/-- No line of the file ends the section before its end. -/
theorem neutral_written (hcr : IsCr cr) (he : e.All Listed)
    (hline : line ∈ written cr (notesPreview e
      ++ partLines "Development" e.development) ++ [cr]) : Neutral line := by
  rw [notesPreview_eq] at hline
  simp only [written_append, List.mem_append, List.mem_singleton] at hline
  rcases hline with (((h | h) | h) | h) | rfl
  · exact neutral_partLines hcr (by decide) he.breaking h
  · exact neutral_partLines hcr (by decide) he.added h
  · exact neutral_partLines hcr (by decide) he.fixed h
  · exact neutral_partLines hcr (by decide) he.development h
  · exact hcr.neutral

theorem IsCr.not_reDev (hcr : IsCr cr) : reDev cr = false := by
  rcases hcr with rfl | rfl <;> decide

/-- Development is no part of the preview. -/
theorem not_reDev_preview (hcr : IsCr cr) (he : e.All Listed)
    (hline : line ∈ written cr (notesPreview e)) : reDev line = false := by
  have hpart : ∀ {title : String} {entries : List Text}, '\n' ∉ title.toList →
      (∀ entry ∈ entries, Listed entry) →
      reDev ("### ".toList ++ title.toList ++ cr) = false →
      line ∈ written cr (partLines title entries) → reDev line = false := by
    intro title entries htitle hentries hdev h
    rcases mem_written_partLines hcr htitle hentries h with rfl | rfl | hbegins
    · exact hcr.not_reDev
    · exact hdev
    · exact hbegins.not_reDev
  rw [notesPreview_eq] at hline
  simp only [written_append, List.mem_append] at hline
  rcases hline with (h | h) | h
  · exact hpart (by decide) he.breaking
      (by rcases hcr with rfl | rfl <;> decide) h
  · exact hpart (by decide) he.added (by rcases hcr with rfl | rfl <;> decide) h
  · exact hpart (by decide) he.fixed (by rcases hcr with rfl | rfl <;> decide) h

-- ================================================================= read back

/-- Taking Development out leaves the preview and a blank line, with an
entry in it or not. -/
theorem dropDevelopment_written (hcr : IsCr cr) (he : e.All Listed) :
    dropDevelopment (written cr (notesPreview e
        ++ partLines "Development" e.development) ++ [cr])
      = .ok (written cr (notesPreview e) ++ [cr]) := by
  have hpreview : ∀ line ∈ written cr (notesPreview e) ++ [cr],
      reDev line = false := by
    intro line hline
    rcases List.mem_append.mp hline with h | h
    · exact not_reDev_preview hcr he h
    · rw [List.mem_singleton.mp h]
      exact hcr.not_reDev
  by_cases hne : e.development = []
  · rw [hne, partLines_nil, List.append_nil]
    unfold dropDevelopment
    rw [List.findIdxs_eq_nil_iff.mpr hpreview]
  · have hentries : ∀ line ∈ cr :: written cr e.development ++ [cr],
        reDev line = false ∧ reH3 line = false := by
      intro line hline
      have hcrH3 : reH3 cr = false := by rcases hcr with rfl | rfl <;> decide
      simp only [List.cons_append, List.mem_cons, List.mem_append,
        List.not_mem_nil, or_false] at hline
      rcases hline with rfl | h | rfl
      · exact ⟨hcr.not_reDev, hcrH3⟩
      · have hbegins := written_entries hcr he.development h
        exact ⟨hbegins.not_reDev, hbegins.not_reH3⟩
      · exact ⟨hcr.not_reDev, hcrH3⟩
    have hdev : reDev ("### ".toList ++ "Development".toList ++ cr) = true := by
      rcases hcr with rfl | rfl <;> decide
    have hsplit : written cr (notesPreview e
          ++ partLines "Development" e.development) ++ [cr]
        = (written cr (notesPreview e) ++ [cr])
          ++ ("### ".toList ++ "Development".toList ++ cr)
            :: (cr :: written cr e.development ++ [cr]) := by
      rw [written_append, written_partLines hcr (by decide) hne]
      simp
    have hrest : (cr :: written cr e.development ++ [cr]).dropWhile
        (fun line => !reH3 line) = [] := by
      rw [List.dropWhile_eq_nil_iff]
      intro line hline
      rw [(hentries line hline).2]
      rfl
    rw [hsplit]
    unfold dropDevelopment
    rw [findIdxs_cut hpreview hdev fun line hline => (hentries line hline).1]
    dsimp only
    rw [List.take_left, List.append_cons _ _ (cr :: _ ++ _), List.drop_left'
      (by rw [List.length_append]; rfl), hrest, List.append_nil]

/-- What is published neither begins nor ends with a blank line, and has an
entry. -/
theorem written_published (hcr : IsCr cr) (h : IsListing published) :
    Lib.Trimmed reBlank (written cr published)
      ∧ ∃ line ∈ written cr published, hasText line = true := by
  obtain ⟨title, htitle, hhead⟩ := h.first
  obtain ⟨entry, hentry, hlast⟩ := h.last
  obtain ⟨rest, hrest⟩ := List.head?_eq_some_iff.mp hhead
  obtain ⟨before, hbefore⟩ := List.getLast?_eq_some_iff.mp hlast
  obtain ⟨ls, last, hlines, happend⟩ := lines_append hcr entry
  have hbegins : Begins (last ++ cr) :=
    (hentry.begins last (hlines ▸ List.mem_append_right _ (by simp))).append cr
  have hend : written cr published = written cr before ++ ls ++ [last ++ cr] := by
    rw [hbefore, written_append, written_cons, happend, written_nil, List.append_nil,
      List.append_assoc]
  refine ⟨⟨?_, ?_⟩, last ++ cr, ?_, hbegins.hasText⟩
  · have htitleLine : '\n' ∉ "### ".toList ++ title ++ cr := by
      simp [htitle, hcr.oneLine]
    rw [hrest, written_cons, lines_line htitleLine]
    intro line hline
    cases hline
    exact reBlank_cons (by decide) (by decide) (by decide)
  · rw [hend]
    intro line hline
    rw [List.getLast?_concat] at hline
    cases hline
    exact hbegins.notBlank
  · rw [hend]
    exact List.mem_append_right _ (List.mem_singleton_self _)

theorem trimBlank_published (hcr : IsCr cr) (h : IsListing published) :
    trimBlank (cr :: written cr published ++ [cr]) = written cr published := by
  unfold trimBlank
  rw [List.cons_append, trim_cons hcr.blank, trim_concat hcr.blank]
  exact (written_published hcr h).1.trim

/-- The published lines keep what their ends are of. -/
theorem published_ends (he : e.All Listed) (h : notesPreview e = [] :: published) :
    ∀ l ∈ published, ∀ line ∈ lines l, line.getLast? ≠ some '\r' := by
  have hpart : ∀ {title : String} {entries : List Text},
      '\n' ∉ title.toList → title.toList.getLast? ≠ some '\r' →
      title.toList ≠ [] → (∀ entry ∈ entries, Listed entry) →
      ∀ l ∈ partLines title entries, ∀ line ∈ lines l,
        line.getLast? ≠ some '\r' := by
    intro title entries htitle hlast hne hentries l hl line hline
    by_cases hnone : entries = []
    · rw [hnone] at hl
      cases hl
    · rw [partLines_of_ne_nil hnone] at hl
      simp only [List.mem_cons] at hl
      rcases hl with rfl | rfl | rfl | hl
      · rw [List.mem_singleton.mp hline]
        decide
      · rw [lines_line (by simp [htitle]), List.mem_singleton] at hline
        rw [hline, List.getLast?_append_of_ne_nil _ hne]
        exact hlast
      · rw [List.mem_singleton.mp hline]
        decide
      · exact (hentries l hl).ends line hline
  intro l hl
  have hmem : l ∈ notesPreview e := h ▸ List.mem_cons_of_mem _ hl
  rw [notesPreview_eq] at hmem
  simp only [List.mem_append] at hmem
  rcases hmem with (hmem | hmem) | hmem
  · exact hpart (by decide) (by decide) (by decide) he.breaking l hmem
  · exact hpart (by decide) (by decide) (by decide) he.added l hmem
  · exact hpart (by decide) (by decide) (by decide) he.fixed l hmem

/-- A section goes up to the line that ends it. -/
theorem getSectionEnd_cut (front : List Text) (head : Text)
    (hls : ∀ l ∈ ls, endsSection l = false)
    (htail : ∀ l ∈ tail.head?, endsSection l = true) :
    getSectionEnd (front ++ head :: (ls ++ tail)) front.length
      = front.length + 1 + ls.length := by
  unfold getSectionEnd
  rw [List.append_cons, List.drop_left' (by rw [List.length_append]; rfl),
    findIdx_cut hls htail]

/-- The notes of a generated section. -/
theorem getSectionBody_written {head : Text} (hcr : IsCr cr) (he : e.All Listed)
    (hpreview : notesPreview e = [] :: published) (hpublished : IsListing published)
    (htail : ∀ l ∈ tail.head?, endsSection l = true) :
    getSectionBody (front ++ head :: (written cr (notesPreview e
        ++ partLines "Development" e.development) ++ [cr] ++ tail)) front.length
      = .ok (some (lines (joinLines published))) := by
  obtain ⟨hne, htext⟩ : published ≠ []
      ∧ ∃ line ∈ written cr published, hasText line = true := by
    refine ⟨?_, (written_published hcr hpublished).2⟩
    rintro rfl
    obtain ⟨title, -, hhead⟩ := hpublished.first
    cases hhead
  have hstop := getSectionEnd_cut front head
    (fun l hl => (neutral_written hcr he hl).endsSection) htail
  have hfirst : written cr (notesPreview e) = cr :: written cr published := by
    rw [hpreview, written_cons, List.nil_append, lines_line hcr.oneLine]
    rfl
  unfold getSectionBody
  dsimp only
  rw [hstop, List.append_cons _ head, List.drop_left' (by rw [List.length_append]; rfl),
    List.take_left' (by omega), dropDevelopment_written hcr he]
  dsimp only
  rw [hfirst, trimBlank_published hcr hpublished,
    if_pos (List.any_eq_true.mpr htext),
    map_trimEndCr_written hcr (published_ends he hpreview), lines_joinLines hne]

-- ================================================================= headings

variable {hash base short definition : Text}

/-- Another heading of the commit would begin as the generated one. -/
theorem isHeadOf_false (h : ¬ ("## [".toList ++ getPrefix base 12 ++ "]".toList)
    <+: line) : isHeadOf base line = false := by
  unfold isHeadOf
  cases hhead : reHashHead line with
  | none => rfl
  | some hash =>
      obtain ⟨⟨hlength, -⟩, hstart⟩ := reHashHead_start hhead
      rw [Option.any_some]
      by_contra hbase
      rw [Bool.not_eq_false, List.isPrefixOf_iff_prefix,
        List.prefix_iff_eq_take, hlength] at hbase
      rw [hbase] at hstart
      exact h hstart

theorem isHeadOf_of_not_head (h : reHead line = false) :
    isHeadOf base line = false := by
  unfold isHeadOf
  cases hhead : reHashHead line with
  | none => rfl
  | some hash =>
      rw [reHead_of_hash hhead] at h
      cases h

/-- A definition is a link definition in its first line, and nothing in
the others. -/
theorem lines_linkDefinition {repo ending : Text} (hshort : IsShort short)
    (hbase : IsSha base) (hrepo : IsRepoArgument repo) (hending : IsCr ending) :
    ∃ first rest, lines (linkDefinition short base repo ++ ending) = first :: rest
      ∧ reLinkDef first = true ∧ ∀ l ∈ rest, Neutral l := by
  have hshortLine : '\n' ∉ short := fun h => absurd (hshort.2 _ h) (by decide)
  have hbaseLine := not_mem_of_isSha hbase (c := '\n') (by decide)
  obtain ⟨url, hurl, rfl | rfl⟩ := hrepo
  · refine ⟨_, [], lines_line ?_, ?_, nofun⟩
    · simp [linkDefinition, hshortLine, hbaseLine, hurl.oneLine, hending.oneLine]
    · exact reLinkDef_linkDefinition hshort hurl.startsClean base ending
  · have hsplit : linkDefinition short base (url ++ ['\n']) ++ ending
        = ('[' :: short ++ "]:".toList ++ ([' '] ++ url))
          ++ '\n' :: ("/commit/".toList ++ base ++ ending) := by
      simp [linkDefinition]
    have hblank : ∀ c ∈ [' '], isBlankChar c = true := by simp [isBlankChar]
    refine ⟨_, ["/commit/".toList ++ base ++ ending], ?_,
      reLinkDef_of_hash hshort hblank hurl.startsClean, ?_⟩
    · rw [hsplit, lines_append_newline, lines_line, lines_line]
      · rfl
      · simp [hbaseLine, hending.oneLine]
      · simp [hshortLine, hurl.oneLine]
    · rw [List.forall_mem_singleton]
      exact neutral_of_head (by simp) (by simp)

/-- The last line of a section is not blank. -/
theorem needsBlank_section {heading : Text} (he : e.All Listed)
    (hpreview : notesPreview e = [] :: published) :
    needsBlank ((getSectionLines e heading).map (· ++ cr)) = true := by
  rcases (parts_notesPreview he).append (parts_development he) with hnil | hparts
  · rw [hpreview] at hnil
    cases hnil
  obtain ⟨rest, hrest, hlisting⟩ := hparts
  obtain ⟨entry, hentry, hlast⟩ := hlisting.last
  obtain ⟨before, hbefore⟩ := List.getLast?_eq_some_iff.mp hlast
  obtain ⟨text, rfl⟩ := hentry.dash
  have hsection : (getSectionLines e heading).map (· ++ cr)
      = (heading :: [] :: before).map (· ++ cr)
        ++ [("- ".toList ++ text) ++ cr] := by
    rw [getSectionLines_eq, hrest, hbefore]
    simp
  have hblank : reBlank ("- ".toList ++ text ++ cr) = false :=
    reBlank_cons (by decide) (by decide) (by decide)
  rw [hsection, needsBlank_snoc, hblank]
  rfl

-- ================================================================= the runs

/-- What a cut wrote, as lines of the file: the heading of the commit is
there once, and the section after it goes up to the lines that follow. -/
structure Layout (c : Cut) (e : Entries) (cr : Text)
    (front tail published : List Text) (g : Generated) : Prop where
  output : lines g.output = front ++ (c.heading ++ cr) :: (written cr
    (notesPreview e ++ partLines "Development" e.development) ++ [cr] ++ tail)
  sectionOutput : g.sectionOutput = joinLines (getSectionLines e c.heading) ++ ['\n']
  isCr : IsCr cr
  listed : e.All Listed
  preview : notesPreview e = [] :: published
  published : IsListing published
  before : ∀ l ∈ front, isHeadOf c.base l = false
  after : ∀ l ∈ tail, isHeadOf c.base l = false
  ends : ∀ l ∈ tail.head?, endsSection l = true

theorem readSection_ok [Culture] {git : Git} {messages : PrMessages} {repo heading : Text}
    {sectionLines warnings stderr : List Text}
    (h : readSection git base messages repo heading
      = .ok (sectionLines, warnings, stderr)) :
    ∃ range, getRange git base messages = .ok range
      ∧ (getEntries range repo).Released
      ∧ sectionLines = getSectionLines (getEntries range repo) heading := by
  unfold readSection at h
  split at h
  next => cases h
  next range hrange =>
    dsimp only at h
    split at h
    next => cases h
    next hreleased =>
      cases h
      rw [Entries.not_released_iff, not_not] at hreleased
      exact ⟨range, hrange, hreleased, rfl⟩

/-- Where a run writes: lines of the file on both sides, and a definition. -/
theorem lines_generated [Culture] {c : Cut} {before after kept fin : List Text}
    {ending repo : Text} (hcr : IsCr cr) (he : e.All Listed)
    (hpreview : notesPreview e = [] :: published)
    (hshape : Shape before after cr kept fin ending)
    (hheading : '\n' ∉ c.heading)
    (hbefore : ∀ l ∈ before, '\n' ∉ l) (hremains : ∀ l ∈ remains cr after, '\n' ∉ l) :
    lines (joinLines (render ⟨before, cr, after⟩ (getSectionLines e c.heading)
        (linkDefinition c.short c.base repo)))
      = before ++ (c.heading ++ cr) :: (written cr (notesPreview e
          ++ partLines "Development" e.development) ++ [cr]
          ++ (kept ++ lines (linkDefinition c.short c.base repo ++ ending) ++ fin)) := by
  rw [hshape.remains] at hremains
  have hkept := flatMap_lines fun l hl => hremains l (List.mem_append_left fin hl)
  have hfin := flatMap_lines fun l hl => hremains l (List.mem_append_right kept hl)
  have hhead : '\n' ∉ c.heading ++ cr := by simp [hheading, hcr.oneLine]
  rw [hshape.render _ _ (needsBlank_section he hpreview), lines_joinLines (by simp),
    getSectionLines_eq]
  simp only [List.map_cons, List.flatMap_append, List.flatMap_cons, flatMap_lines hbefore,
    lines_line hhead, lines_line hcr.oneLine, hkept, hfin]
  unfold written
  simp

/-- A cut that succeeds has read the last tag. -/
theorem shown_of_generate [Culture] {c : Cut} {repoUrl text : Text} {g : Generated}
    (hrun : c.generate repoUrl text = .ok g) :
    ∃ shown ignored, showLastTag c.git = .ok (shown, ignored) := by
  cases hshown : showLastTag c.git with
  | ok found => exact ⟨found.1, found.2, rfl⟩
  | error e =>
      exfalso
      have hbase : resolveBase c.git c.base = .ok c.base := if_pos (sha_ne_nil c.sha)
      unfold Cut.generate invokeGenerateRun generate readChangelog
        removeUntaggedSections at hrun
      split at hrun
      next => cases hrun
      next =>
        dsimp only at hrun
        rw [hbase, hshown] at hrun
        dsimp only at hrun
        cases hrepo : getRepoUrl (lines text) repoUrl with
        | error e => rw [hrepo] at hrun; cases hrun
        | ok repo => rw [hrepo] at hrun; cases hrun

/-- A cut that succeeds has a layout. -/
theorem layout_of_generate [Culture] {c : Cut} {repoUrl text : Text} {g : Generated}
    (hrun : c.generate repoUrl text = .ok g) :
    ∃ range repo cr front tail published,
      getRange c.git c.base c.messages = .ok range
      ∧ getRepoUrl (lines text) repoUrl = .ok repo
      ∧ Layout c (getEntries range repo) cr front tail published g := by
  obtain ⟨shown, ignored, hshown⟩ := shown_of_generate hrun
  obtain ⟨htest, repo, hrepo, hno, sectionLines, warnings, stderr, hsection, rfl⟩ :=
    (generate_ok_iff hshown).mp hrun
  obtain ⟨range, hrange, hreleased, rfl⟩ := readSection_ok hsection
  have hargument : IsRepoArgument repo := by
    rcases isRepoArgument_of_getRepoUrl hrepo htest with ⟨-, hargument⟩ | hurl
    · exact hargument
    · exact ⟨repo, hurl, Or.inl rfl⟩
  have he := listed_getEntries hrange hargument
  obtain ⟨published, hpreview, hpublished⟩ := exists_published he hreleased
  obtain ⟨pre, after, cr, hsplit, hplace, hcr, -, hinsertion⟩ :=
    exists_insertion (keptLines shown text)
  obtain ⟨kept, fin, ending, hshape⟩ : ∃ kept fin ending,
      Shape (withBlank pre cr) after cr kept fin ending := exists_shape hplace hcr
  have hheading := heading_line (isShort_short c) (fits_date htest)
  have hlines : ∀ l ∈ withBlank pre cr ++ remains cr after,
      '\n' ∉ l ∧ isHeadOf c.base l = false := by
    intro l hl
    have hcases := mem_around hcr hl
    rw [← hsplit] at hcases
    rcases hcases with hkept | hisCr
    · exact ⟨keptLines_oneLine hkept, isHeadOf_false (hno l hkept)⟩
    · exact ⟨hisCr.oneLine, isHeadOf_of_not_head hisCr.neutral.noHead⟩
  have hremains := fun l hl => hlines l (List.mem_append_right (withBlank pre cr) hl)
  rw [hshape.remains] at hremains
  obtain ⟨first, rest, hdefinition, hfirst, hrest⟩ :=
    lines_linkDefinition (isShort_short c) c.sha hargument hshape.ending
  refine ⟨range, repo, cr, withBlank pre cr,
    kept ++ lines (linkDefinition c.short c.base repo ++ ending) ++ fin, published,
    hrange, hrepo, ?_, rfl, hcr, he, hpreview, hpublished, ?_, ?_, ?_⟩
  · unfold getGeneratedText
    rw [hinsertion]
    exact lines_generated hcr he hpreview hshape hheading
      (fun l hl => (hlines l (List.mem_append_left _ hl)).1)
      fun l hl => (hlines l (List.mem_append_right _ hl)).1
  · exact fun l hl => (hlines l (List.mem_append_left _ hl)).2
  · intro l hl
    rw [hdefinition] at hl
    rcases List.mem_append.mp hl with hl | hl
    · rcases List.mem_append.mp hl with hl | hl
      · exact (hremains l (List.mem_append_left _ hl)).2
      · apply isHeadOf_of_not_head
        rcases List.mem_cons.mp hl with rfl | hl
        · by_contra hhead
          rw [Bool.not_eq_false] at hhead
          rw [not_linkDef_of_head hhead] at hfirst
          cases hfirst
        · exact (hrest l hl).noHead
    · exact (hremains l (List.mem_append_right _ hl)).2
  · intro l hl
    rw [hdefinition] at hl
    unfold endsSection
    cases hkept : kept with
    | nil =>
        rw [hkept] at hl
        cases hl
        rw [hfirst, Bool.or_true]
    | cons k kept' =>
        rw [hkept] at hl
        cases hl
        rw [hshape.head _ (by rw [hkept]; rfl), Bool.true_or]

theorem isHeadOf_heading {c : Cut} {repoUrl : Text}
    (htest : testArguments ⟨c.base, c.date, repoUrl⟩ = none) (hcr : IsCr cr) :
    isHeadOf c.base (c.heading ++ cr) = true := by
  have hhead : reHashHead (c.heading ++ cr) = some c.short :=
    reHashHead_heading (isShort_short c) (fits_date htest) hcr
  unfold isHeadOf
  rw [hhead, Option.any_some, List.isPrefixOf_iff_prefix]
  exact List.take_prefix 12 c.base

namespace Layout

variable {c : Cut} {g : Generated}

theorem others (h : Layout c e cr front tail published g)
    (hline : line ∈ written cr (notesPreview e
      ++ partLines "Development" e.development) ++ [cr] ++ tail) :
    isHeadOf c.base line = false := by
  rcases List.mem_append.mp hline with hl | hl
  · exact isHeadOf_of_not_head (neutral_written h.isCr h.listed hl).noHead
  · exact h.after line hl

/-- The heading of the commit is there once. -/
theorem heads (h : Layout c e cr front tail published g)
    (hhead : isHeadOf c.base (c.heading ++ cr) = true) :
    (lines g.output).filter (isHeadOf c.base) = [c.heading ++ cr] := by
  have hbefore : front.filter (isHeadOf c.base) = [] := by
    simpa using h.before
  have hothers := List.filter_eq_nil_iff.mpr fun line hline =>
    Bool.eq_false_iff.mp (h.others hline)
  rw [h.output, List.filter_append, hbefore, List.filter_cons_of_pos hhead, hothers]
  rfl

/-- A tag on a commit over the base gets the section of the cut. -/
theorem resolved (h : Layout c e cr front tail published g) {git : Git}
    {sha : Text} (hhead : isHeadOf c.base (c.heading ++ cr) = true)
    (hlast : c.heading.getLast? ≠ some '\r')
    (hparent : getGitOutput git (revParseParent sha) = .ok c.base) :
    resolveRelease git .tag sha g.output
      = .ok ⟨c.heading, lines (joinLines published)⟩ := by
  have hchosen : ((front ++ (c.heading ++ cr) :: (written cr (notesPreview e
      ++ partLines "Development" e.development) ++ [cr] ++ tail)).getD front.length [])
      = c.heading ++ cr := by
    simp
  unfold resolveRelease resolveTag
  dsimp only
  rw [hparent, h.output]
  dsimp only
  rw [findIdxs_cut h.before hhead fun _ => h.others]
  dsimp only
  rw [getSectionBody_written h.isCr h.listed h.preview h.published h.ends, hchosen,
    trimEndCr_append h.isCr hlast]

end Layout

/-- What is published has no blank line at its ends. -/
theorem trimmed_published (h : IsListing published) : Lib.Trimmed reBlank published := by
  obtain ⟨title, -, hhead⟩ := h.first
  obtain ⟨entry, hentry, hlast⟩ := h.last
  constructor
  · intro line hline
    rw [hhead] at hline
    cases hline
    exact reBlank_cons (by decide) (by decide) (by decide)
  · intro line hline
    rw [hlast] at hline
    cases hline
    obtain ⟨rest, rfl⟩ := hentry.dash
    exact reBlank_cons (by decide) (by decide) (by decide)

-- ================================================================= the base

variable {git : Git} {today text : Text} {messages : PrMessages}
  {a : GenerateArgs} {g : Generated}

/-- A base that git printed is a hash: it has no line feed at its end. -/
theorem isSha_of_parent {args : List Text} (h : reBase base = true)
    (hparent : getGitOutput git args = .ok base) : IsSha base := by
  obtain ⟨found, hfound⟩ := Option.isSome_iff_exists.mp h
  rcases atEnd_some hfound with h | ⟨hlast, -⟩
  · split at h
    next hsha => exact hsha
    next => cases h
  · unfold getGitOutput at hparent
    dsimp only at hparent
    split at hparent
    next => cases hparent
    next =>
      cases hparent
      have hclean := (trimmed_trim isWhiteSpace (git args).out).last '\n' hlast
      exact absurd hclean (by decide)

theorem reBase_of_resolved (htest : testBaseArgument a.base = true)
    (h : resolveBase git a.base = .ok base) : reBase base = true := by
  unfold resolveBase at h
  split at h
  next hne =>
    cases h
    unfold testBaseArgument at htest
    simpa [hne] using htest
  next =>
    split at h
    next => cases h
    next =>
      split at h
      next hbase =>
        cases h
        exact hbase
      next => cases h

theorem testArguments_of_generate [Culture]
    (hrun : invokeGenerateRun git today messages a text = .ok g) :
    testArguments a = none := by
  unfold invokeGenerateRun at hrun
  split at hrun
  next => cases hrun
  next htest => exact htest

/-- A run is the run with its base given. -/
theorem generate_of_resolved [Culture] (hbase : IsSha base) (hreBase : reBase base = true)
    (hrun : invokeGenerateRun git today messages a text = .ok g)
    (hresolved : resolveBase git a.base = .ok base) :
    invokeGenerateRun git today messages ⟨base, a.date, a.repoUrl⟩ text = .ok g := by
  have htest := testArguments_of_generate hrun
  have hgiven : testBaseArgument base = true := by
    unfold testBaseArgument
    rw [hreBase, Bool.or_true]
  have hsame : testArguments ⟨base, a.date, a.repoUrl⟩ = testArguments a := by
    unfold testArguments
    rw [hgiven, testBase_of_generate htest]
  have hagain : resolveBase git base = .ok base := if_pos (sha_ne_nil hbase)
  unfold invokeGenerateRun generate at hrun ⊢
  rw [hsame]
  dsimp only at hrun ⊢
  rw [hresolved] at hrun
  rw [hagain]
  exact hrun

/-- When `pr-body` ends well, and what it writes. -/
theorem prBody_ok_iff [Culture] {files : PrFiles} {a : PrBodyArgs} {d : Described} :
    invokePrBodyRun git messages files a text = .ok d
      ↔ testPrBodyArguments a = none
        ∧ ∃ repo range preview, getRepoUrl (lines text) a.repoUrl = .ok repo
          ∧ resolveRange git a.base messages = .ok range
          ∧ (getEntries range repo).Released
          ∧ formatVersionPreview (getLevel range).text a.label range.latest
            = .ok preview
          ∧ d = ⟨joinLines (descriptionLines preview (getEntries range repo)
                (bodyWarnings files range (getEntries range repo))) ++ ['\n'],
              bodyWarnings files range (getEntries range repo), range.stderr⟩ := by
  unfold invokePrBodyRun
  cases testPrBodyArguments a with
  | some message => simp
  | none =>
      dsimp only
      unfold prBody
      cases getRepoUrl (lines text) a.repoUrl with
      | error e => simp [invokeGuarded]
      | ok repo =>
          dsimp only
          cases resolveRange git a.base messages with
          | error e => simp [invokeGuarded]
          | ok range =>
              dsimp only
              have hnone := Entries.not_released_iff (e := getEntries range repo)
              by_cases hreleased : (getEntries range repo).Released
              · rw [if_neg fun h => hnone.mp h hreleased]
                cases hpreview : formatVersionPreview (getLevel range).text a.label
                    range.latest with
                | error e => simp [invokeGuarded, hpreview]
                | ok preview =>
                    simp only [invokeGuarded, Except.ok.injEq, true_and, hreleased,
                      exists_and_left, existsAndEq, hpreview]
                    exact eq_comm
              · rw [if_pos (hnone.mpr hreleased)]
                simp [invokeGuarded, hreleased]

/-- What is generated is what is published. After a run of `generate` with
a base, `notes` for a tag on a commit over this base finds the generated
heading and no other, and writes the generated section without its heading,
without Development and without blank lines at its ends; and these are the
lines that `pr-body` previews. -/
theorem generated_is_published [Culture] {git git' : Git} {today text base sha : Text}
    {messages : PrMessages} {a : GenerateArgs} {g : Generated}
    (hday : isRealDate today = true)
    (hrun : invokeGenerateRun git today messages a text = .ok g)
    (hbase : resolveBase git a.base = .ok base)
    (hparent : getGitOutput git' (revParseParent sha) = .ok base) :
    ∃ (range : Range) (repo heading : Text) (e : Entries) (published : List Text),
      getRange git base messages = .ok range
      ∧ getRepoUrl (lines text) a.repoUrl = .ok repo
      ∧ e = getEntries range repo
      ∧ g.sectionOutput = joinLines (heading :: [] :: published
          ++ partLines "Development" e.development) ++ ['\n']
      ∧ Lib.Trimmed reBlank published
      ∧ (∃ cr, IsCr cr
        ∧ (lines g.output).filter (isHeadOf base) = [heading ++ cr])
      ∧ (∀ hasSummary, invokeNotesRun git' hasSummary .tag sha g.output
        = .ok ⟨joinLines published ++ ['\n'],
            addSummary hasSummary (notesSummary .tag heading)⟩)
      ∧ notesPreview e = [] :: published
      ∧ ∀ (files : PrFiles) (label : Text) (d : Described),
        invokePrBodyRun git messages files ⟨a.base, a.repoUrl, label⟩ text = .ok d →
          ∃ preview warnings, d.output
            = joinLines (descriptionLines preview e warnings) ++ ['\n'] := by
  have hreBase := reBase_of_resolved
    (testBase_of_generate (testArguments_of_generate hrun)) hbase
  have hsha := isSha_of_parent hreBase hparent
  obtain ⟨c, hc⟩ : ∃ c : Cut, c = ⟨git, today, messages, base, a.date, hsha, hday⟩ :=
    ⟨_, rfl⟩
  have hcut : c.generate a.repoUrl text = .ok g := by
    rw [hc]
    exact generate_of_resolved hsha hreBase hrun hbase
  have htest := testArguments_of_generate hcut
  obtain ⟨range, repo, cr, front, tail, published, hrange, hrepo, hlayout⟩ :=
    layout_of_generate hcut
  have hhead := isHeadOf_heading htest hlayout.isCr
  have hlast : c.heading.getLast? ≠ some '\r' :=
    generatedHeading_last c.short (fits_date htest)
  have hcBase : c.base = base := by rw [hc]
  have hresolved := hlayout.resolved hhead hlast (hcBase ▸ hparent)
  rw [hc] at hrange
  refine ⟨range, repo, c.heading, _, published, hrange, hrepo, rfl, ?_,
    trimmed_published hlayout.published, ⟨cr, hlayout.isCr, ?_⟩, ?_,
    hlayout.preview, ?_⟩
  · rw [hlayout.sectionOutput, getSectionLines_eq, hlayout.preview]
    rfl
  · rw [← hcBase]
    exact hlayout.heads hhead
  · intro hasSummary
    unfold invokeNotesRun
    rw [hresolved]
    dsimp only
    rw [joinLines_lines]
  · intro files label d hdescribed
    obtain ⟨-, repo', range', preview, hrepo', hrange', -, -, rfl⟩ :=
      prBody_ok_iff.mp hdescribed
    rw [resolveRange_eq hbase, hrange] at hrange'
    rw [hrepo] at hrepo'
    cases hrange'
    cases hrepo'
    exact ⟨preview, _, rfl⟩

open SoftHyphen

/-- A git of a clone with the squash-merged cut: it knows the parent of one
commit. -/
def squashed (sha parent : Text) : Git := fun args =>
  if args = revParseParent sha then success (parent ++ ['\n']) else unknownRevision

/-- The second of two fixes is released. -/
theorem generated_is_published_fixes :
    ∃ g, invokeGenerateRun (fixes.gitWith releasedFile) "2024-05-01".toList
        (fun _ => none) ⟨shaOf 'c', [], []⟩ releasedFile = .ok g
      ∧ ∃ (heading : Text) (published : List Text),
        invokeNotesRun (squashed (shaOf 'd') (shaOf 'c')) true .tag (shaOf 'd')
          g.output = .ok ⟨joinLines published ++ ['\n'],
            .ok (notesSummary .tag heading)⟩ := by
  obtain ⟨g, hg⟩ := exists_of_toBool
    (x := invokeGenerateRun (fixes.gitWith releasedFile) "2024-05-01".toList
      (fun _ => none) ⟨shaOf 'c', [], []⟩ releasedFile) (by decide)
  obtain ⟨_, _, heading, _, published, -, -, -, -, -, -, hnotes, -⟩ :=
    generated_is_published (by decide) hg
      (show resolveBase (fixes.gitWith releasedFile) (shaOf 'c') = .ok (shaOf 'c')
        from if_pos (by decide))
      (show getGitOutput (squashed (shaOf 'd') (shaOf 'c'))
        (revParseParent (shaOf 'd')) = .ok (shaOf 'c') by rfl)
  exact ⟨g, hg, heading, published, hnotes true⟩

end RestifyCapl.Ci
