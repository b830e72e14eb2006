/-
The grammar of a header block. A line is a name, a colon and a value; what
`ParseHeaderBlock` accepts is exactly the blocks of such lines
(`parseHeaderLine_ok`), and it hands over what it accepted trimmed
(`CleanHeader`), so that writing the headers out again and parsing them
gives the same list.
-/
import RestifyCapl.Http.SyncTextApi
import RestifyCapl.Lib.Split
import RestifyCapl.Lib.Trim

namespace RestifyCapl.Http

open Lib

-- ============================================================= the grammar

/-- Nothing but whitespace. -/
def Blank (text : Bytes) : Prop := ∀ c ∈ text, isSpace c = true

/-- A line, without the `\r` at its end: `before`, the first colon, and
`after`. -/
structure HeaderLine (line before after : Bytes) : Prop where
  cut : stripTrailingCr line = before ++ ch ':' :: after
  first : ch ':' ∉ before
  name : ¬ Blank before
  value : ¬ Blank after

/-- The empty block, or header lines only. -/
def HeaderBlock (block : Bytes) : Prop :=
  block = []
    ∨ ∀ line ∈ block.splitOn (ch '\n'), ∃ before after,
      HeaderLine line before after

/-- The lines of a block; the empty block has none. -/
def blockLines (block : Bytes) : List Bytes :=
  if block.isEmpty then [] else block.splitOn (ch '\n')

/-- What the name and the value of a header are like. -/
structure CleanHeader (header : HttpHeader) : Prop where
  name : Trimmed isSpace header.name
  value : Trimmed isSpace header.value
  name_ne : header.name ≠ []
  value_ne : header.value ≠ []
  name_line : ch '\n' ∉ header.name
  value_line : ch '\n' ∉ header.value
  colon : ch ':' ∉ header.name

-- ================================================================ one line

theorem trim_isEmpty {text : Bytes} : (trim text).isEmpty = true ↔ Blank text := by
  rw [List.isEmpty_iff]
  exact trim_eq_nil

/-- What is before the first colon, and what is after it. -/
theorem cut_at_colon {line before after : Bytes}
    (h : line = before ++ ch ':' :: after) (hfirst : ch ':' ∉ before) :
    line.takeWhile (· ≠ ch ':') = before
      ∧ (line.dropWhile (· ≠ ch ':')).drop 1 = after := by
  have hbefore : ∀ c ∈ before, decide (c ≠ ch ':') = true := by
    intro c hc
    rw [decide_eq_true_iff]
    intro heq
    exact hfirst (heq ▸ hc)
  have hcolon : decide (ch ':' ≠ ch ':') = false := by simp
  rw [h, takeWhile_cut hbefore hcolon, dropWhile_cut hbefore hcolon]
  exact ⟨rfl, rfl⟩

/-- A header line is read into its trimmed parts. -/
theorem HeaderLine.parse {line before after : Bytes}
    (h : HeaderLine line before after) :
    parseHeaderLine line = .ok ⟨trim before, trim after⟩ := by
  obtain ⟨hname, hvalue⟩ := cut_at_colon h.cut h.first
  have hcolon : ch ':' ∈ stripTrailingCr line := by
    rw [h.cut]
    simp
  unfold parseHeaderLine
  dsimp only
  rw [if_neg (fun hnot => hnot hcolon), hname, hvalue]
  have hnot : ¬ ((trim before).isEmpty || (trim after).isEmpty) = true := by
    rw [Bool.or_eq_true, trim_isEmpty, trim_isEmpty]
    rintro (hblank | hblank)
    · exact h.name hblank
    · exact h.value hblank
  rw [if_neg hnot]

/-- What is read is a header line. -/
theorem parseHeaderLine_ok {line : Bytes} {header : HttpHeader}
    (h : parseHeaderLine line = .ok header) :
    ∃ before after, HeaderLine line before after
      ∧ header = ⟨trim before, trim after⟩ := by
  unfold parseHeaderLine at h
  dsimp only at h
  split at h
  · cases h
  · rename_i hcolon
    rw [not_not] at hcolon
    obtain ⟨before, after, hcut, hfirst⟩ := List.eq_append_cons_of_mem hcolon
    obtain ⟨hname, hvalue⟩ := cut_at_colon hcut hfirst
    rw [hname, hvalue] at h
    split at h
    · cases h
    · rename_i hnot
      rw [Bool.or_eq_true, trim_isEmpty, trim_isEmpty, not_or] at hnot
      cases h
      exact ⟨before, after, ⟨hcut, hfirst, hnot.1, hnot.2⟩, rfl⟩

/-- A line that is refused is malformed. -/
theorem parseHeaderLine_error {line : Bytes} {status : Status}
    (h : parseHeaderLine line = .error status) :
    status = .malformedHeaderBlock := by
  unfold parseHeaderLine at h
  dsimp only at h
  split at h
  · cases h
    rfl
  · split at h
    · cases h
      rfl
    · cases h

theorem stripTrailingCr_subset (line : Bytes) : stripTrailingCr line ⊆ line := by
  unfold stripTrailingCr
  split
  · exact (List.dropLast_prefix line).subset
  · exact List.Subset.refl line

/-- The header of a line without a line end in it is clean. -/
theorem HeaderLine.clean {line before after : Bytes}
    (h : HeaderLine line before after) (hline : ch '\n' ∉ line) :
    CleanHeader ⟨trim before, trim after⟩ := by
  have hstripped : ch '\n' ∉ before ++ ch ':' :: after := by
    rw [← h.cut]
    exact fun hmem => hline (stripTrailingCr_subset line hmem)
  rw [List.mem_append, List.mem_cons, not_or, not_or] at hstripped
  obtain ⟨hbefore, -, hafter⟩ := hstripped
  exact {
    name := trimmed_trim isSpace before
    value := trimmed_trim isSpace after
    name_ne := fun hnil => h.name (trim_eq_nil.mp hnil)
    value_ne := fun hnil => h.value (trim_eq_nil.mp hnil)
    name_line := fun hmem => hbefore (trim_subset hmem)
    value_line := fun hmem => hafter (trim_subset hmem)
    colon := fun hmem => h.first (trim_subset hmem) }

-- =============================================================== the lines

theorem parseHeaderLines_ok {lines : List Bytes} {headers : List HttpHeader} :
    parseHeaderLines lines = .ok headers
      ↔ List.Forall₂ (fun line header => parseHeaderLine line = .ok header)
        lines headers := by
  induction lines generalizing headers with
  | nil =>
      constructor
      · intro h
        cases h
        exact .nil
      · intro h
        cases h
        rfl
  | cons line lines ih =>
      unfold parseHeaderLines
      constructor
      · intro h
        split at h
        · cases h
        · rename_i header hheader
          split at h
          · cases h
          · rename_i rest hrest
            cases h
            exact .cons hheader (ih.mp hrest)
      · intro h
        cases h with
        | cons hheader hrest =>
            rw [hheader]
            dsimp only
            rw [ih.mpr hrest]

/-- A list of lines is refused for one of its lines. -/
theorem parseHeaderLines_error {lines : List Bytes} {status : Status}
    (h : parseHeaderLines lines = .error status) :
    ∃ line ∈ lines, parseHeaderLine line = .error status := by
  induction lines with
  | nil => cases h
  | cons line lines ih =>
      unfold parseHeaderLines at h
      split at h
      · rename_i hline
        cases h
        exact ⟨line, List.mem_cons_self, hline⟩
      · split at h
        · rename_i hrest
          cases h
          obtain ⟨line', hmem, hline'⟩ := ih hrest
          exact ⟨line', List.mem_cons_of_mem _ hmem, hline'⟩
        · cases h

/-- A block is read line by line. -/
theorem parseHeaderBlock_lines (block : Bytes) :
    parseHeaderBlock block = parseHeaderLines (blockLines block) := by
  unfold parseHeaderBlock blockLines
  split <;> rfl

theorem blockLines_of_ne {block : Bytes} (h : block ≠ []) :
    blockLines block = block.splitOn (ch '\n') := by
  unfold blockLines
  rw [if_neg (by rwa [List.isEmpty_iff])]

theorem line_of_blockLines {block line : Bytes} (h : line ∈ blockLines block) :
    ch '\n' ∉ line := by
  unfold blockLines at h
  split at h
  · cases h
  · exact not_mem_of_mem_splitOn h

/-- The grammar, on the lines of the block. -/
theorem headerBlock_iff {block : Bytes} :
    HeaderBlock block
      ↔ ∀ line ∈ blockLines block, ∃ before after,
        HeaderLine line before after := by
  by_cases hnil : block = []
  · subst hnil
    refine ⟨?_, fun _ => Or.inl rfl⟩
    intro _ line hline
    cases hline
  · unfold HeaderBlock
    rw [blockLines_of_ne hnil]
    constructor
    · rintro (heq | h)
      · exact absurd heq hnil
      · exact h
    · exact Or.inr

-- ========================================================== written out again

/-- `name: value`. -/
def renderHeader (header : HttpHeader) : Bytes :=
  header.name ++ ch ':' :: ch ' ' :: header.value

/-- The headers, a line each. -/
def renderHeaders (headers : List HttpHeader) : Bytes :=
  [ch '\n'].intercalate (headers.map renderHeader)

/-- The line of a clean header is a header line of its own parts. -/
theorem CleanHeader.line {header : HttpHeader} (h : CleanHeader header) :
    HeaderLine (renderHeader header) header.name (ch ' ' :: header.value) where
  cut := by
    have hlast : (renderHeader header).getLast? = header.value.getLast? := by
      unfold renderHeader
      rw [List.getLast?_append, List.getLast?_cons_cons,
        List.getLast?_cons_of_ne_nil h.value_ne]
      obtain ⟨c, hc⟩ := Option.ne_none_iff_exists'.mp
        (mt List.getLast?_eq_none_iff.mp h.value_ne)
      rw [hc]
      rfl
    unfold stripTrailingCr
    rw [if_neg]
    · rfl
    · intro hcr
      rw [hlast] at hcr
      have hspace := h.value.last _ hcr
      revert hspace
      decide
  first := h.colon
  name hblank := by
    obtain ⟨c, rest, hc⟩ := List.exists_cons_of_ne_nil h.name_ne
    have hfirst := h.name.first c (by rw [hc]; rfl)
    rw [hblank c (by rw [hc]; exact List.mem_cons_self)] at hfirst
    cases hfirst
  value hblank := by
    obtain ⟨c, rest, hc⟩ := List.exists_cons_of_ne_nil h.value_ne
    have hfirst := h.value.first c (by rw [hc]; rfl)
    rw [hblank c (by rw [hc]; simp)] at hfirst
    cases hfirst

theorem CleanHeader.parse {header : HttpHeader} (h : CleanHeader header) :
    parseHeaderLine (renderHeader header) = .ok header := by
  rw [h.line.parse]
  have hname : trim header.name = header.name := h.name.trim
  have hvalue : trim (ch ' ' :: header.value) = header.value :=
    (trim_cons (by decide) header.value).trans h.value.trim
  rw [hname, hvalue]

theorem CleanHeader.render_line {header : HttpHeader} (h : CleanHeader header) :
    ch '\n' ∉ renderHeader header := by
  unfold renderHeader
  rw [List.mem_append, List.mem_cons, List.mem_cons]
  rintro (hmem | hmem | hmem | hmem)
  · exact h.name_line hmem
  · revert hmem
    decide
  · revert hmem
    decide
  · exact h.value_line hmem

theorem renderHeader_ne (header : HttpHeader) : renderHeader header ≠ [] := by
  unfold renderHeader
  simp

/-- Clean headers come back. -/
theorem parse_renderHeaders {headers : List HttpHeader}
    (h : ∀ header ∈ headers, CleanHeader header) :
    parseHeaderBlock (renderHeaders headers) = .ok headers := by
  have hlines : blockLines (renderHeaders headers)
      = headers.map renderHeader := by
    cases headers with
    | nil => rfl
    | cons header rest =>
        have hsplit : (renderHeaders (header :: rest)).splitOn (ch '\n')
            = (header :: rest).map renderHeader := by
          apply List.splitOn_intercalate
          · intro line hline
            obtain ⟨header', hmem, rfl⟩ := List.mem_map.mp hline
            exact (h header' hmem).render_line
          · simp
        rw [blockLines_of_ne, hsplit]
        intro hnil
        rw [hnil, List.splitOn_nil, List.map_cons, List.cons.injEq] at hsplit
        exact renderHeader_ne header hsplit.1.symm
  rw [parseHeaderBlock_lines, hlines, parseHeaderLines_ok,
    List.forall₂_map_left_iff, List.forall₂_same]
  intro header hmem
  exact (h header hmem).parse

-- ============================================================== the result

/-- `ParseHeaderBlock` accepts exactly its grammar, and what it gives is
stable: a header for each line, in order, of the trimmed parts around the
first colon; and written out again and parsed the list is the same. -/
theorem parseHeaderBlock_grammar (block : Bytes) :
    ((∃ headers, parseHeaderBlock block = .ok headers) ↔ HeaderBlock block)
      ∧ (∀ status, parseHeaderBlock block = .error status →
        status = .malformedHeaderBlock)
      ∧ ∀ headers, parseHeaderBlock block = .ok headers →
        List.Forall₂ (fun line header => ∃ before after,
          HeaderLine line before after
            ∧ header = ⟨trim before, trim after⟩) (blockLines block) headers
        ∧ (∀ header ∈ headers, CleanHeader header)
        ∧ parseHeaderBlock (renderHeaders headers) = .ok headers := by
  rw [parseHeaderBlock_lines, headerBlock_iff]
  refine ⟨⟨?_, ?_⟩, ?_, ?_⟩
  · rintro ⟨headers, h⟩ line hline
    obtain ⟨header, -, hheader⟩ :=
      exists_of_forall₂ (parseHeaderLines_ok.mp h) hline
    obtain ⟨before, after, hparts, -⟩ := parseHeaderLine_ok hheader
    exact ⟨before, after, hparts⟩
  · intro h
    cases hparse : parseHeaderLines (blockLines block) with
    | ok headers => exact ⟨headers, rfl⟩
    | error status =>
        obtain ⟨line, hline, hrefused⟩ := parseHeaderLines_error hparse
        obtain ⟨before, after, hparts⟩ := h line hline
        rw [hparts.parse] at hrefused
        cases hrefused
  · intro status h
    obtain ⟨line, -, hrefused⟩ := parseHeaderLines_error h
    exact parseHeaderLine_error hrefused
  · intro headers h
    have hread := (parseHeaderLines_ok.mp h).imp
      fun _ _ hline => parseHeaderLine_ok hline
    have hclean : ∀ header ∈ headers, CleanHeader header := by
      intro header hmem
      obtain ⟨line, hline, before, after, hparts, rfl⟩ :=
        exists_of_forall₂ hread.flip hmem
      exact hparts.clean (line_of_blockLines hline)
    exact ⟨hread, hclean, parse_renderHeaders hclean⟩

end RestifyCapl.Http
