/-
The markdown table lists every function of a sound export table once.
A row that passes the checks gives its function's signature, the parts of
the categories together hold every row, and the only lines the release
workflow counts are those of the rows: nothing else begins like one, and
no row takes more than one line, because its description's line breaks
are replaced and a signature is made of identifiers.

A category is printed as it is, so one with a line feed could begin a
line of its own; the lines are those of a table without such categories.
grep ends lines at a NUL too. A category could hold one, and a description,
but in a description every bar is escaped, so what follows its NUL does not
begin like a row.
-/
import RestifyCapl.Export.Markdown
import RestifyCapl.Export.Proofs.TableSound

namespace RestifyCapl.Export

open Ci Lib

-- ==================================================================== lines

/-- Lines that each end in a line feed. -/
theorem lines_flatMap {ls : List Text} (h : ∀ l ∈ ls, '\n' ∉ l) :
    lines (ls.flatMap fun l => l ++ "\n".toList) = ls ++ [[]] := by
  unfold lines
  induction ls with
  | nil => exact List.splitOn_nil '\n'
  | cons l ls ih =>
      rw [List.forall_mem_cons] at h
      have hcut : (l :: ls).flatMap (fun l => l ++ "\n".toList)
          = l ++ '\n' :: ls.flatMap fun l => l ++ "\n".toList := by
        rw [List.flatMap_cons, List.append_assoc]
        rfl
      rw [hcut, List.splitOn_append_cons_self_of_not_mem h.1, ih h.2]
      rfl

/-- The lines of a category's part. -/
def categoryLines (category : Text) (rows : List MarkdownRow) : List Text :=
  [[], "#### ".toList ++ category, [], "| Row | Signature | Description |".toList,
    "|---|---|---|".toList] ++ rows.map MarkdownRow.line

def markdownLines (rows : List MarkdownRow) : List Text :=
  "Row 0 is the reserved `CDLL_VERSION` marker.".toList
    :: (groupOn MarkdownRow.category rows).flatMap fun group =>
      categoryLines group.1 group.2

theorem categoryText_eq (category : Text) (rows : List MarkdownRow) :
    categoryText category rows
      = (categoryLines category rows).flatMap fun l => l ++ "\n".toList := by
  unfold categoryText categoryLines
  rw [List.flatMap_append, List.flatMap_map]
  simp [List.flatMap_cons]

theorem getMarkdown_eq (rows : List MarkdownRow) :
    getMarkdown rows = (markdownLines rows).flatMap fun l => l ++ "\n".toList := by
  unfold getMarkdown markdownLines
  rw [List.flatMap_cons, List.flatMap_assoc]
  simp only [categoryText_eq]
  rfl

theorem newline_not_mem_blankNewlines (inside : Bool) (t : Text) :
    '\n' ∉ blankNewlines inside t := by
  induction t generalizing inside with
  | nil => exact List.not_mem_nil
  | cons c t ih =>
      unfold blankNewlines
      split
      next =>
        rw [List.mem_append]
        rintro (hmem | hmem)
        · split at hmem
          · cases hmem
          · exact absurd (List.mem_singleton.mp hmem) (by decide)
        · exact ih true hmem
      next hc =>
        rw [List.mem_cons]
        rintro (rfl | hmem)
        · exact hc (Or.inr rfl)
        · exact ih false hmem

theorem newline_not_mem_format (n : Nat) : '\n' ∉ format n :=
  fun hmem => absurd (format_digits n _ hmem) (by decide)

/-- A row is one line. -/
theorem newline_not_mem_line {row : MarkdownRow} (h : '\n' ∉ row.signature) :
    '\n' ∉ row.line := by
  unfold MarkdownRow.line
  simp only [List.mem_append, not_or]
  refine ⟨⟨⟨⟨⟨⟨?_, ?_⟩, ?_⟩, h⟩, ?_⟩, ?_⟩, ?_⟩
  · decide
  · exact newline_not_mem_format row.index
  · decide
  · decide
  · exact newline_not_mem_blankNewlines _ _
  · decide

-- ==================================================================== count

/-- How a row's line begins. -/
def MarkdownRow.opening (row : MarkdownRow) : Text :=
  "| ".toList ++ format row.index ++ " | `".toList

theorem isFunctionRow_opening (row : MarkdownRow) (t : Text) :
    isFunctionRow (row.opening ++ t) = true := by
  have hline : row.opening ++ t
      = "| ".toList ++ (format row.index ++ (' ' :: '|' :: ' ' :: '`' :: t)) := by
    unfold MarkdownRow.opening
    simp
  have hdigits := format_digits row.index
  have hafter : after "| ".toList (row.opening ++ t)
      = some (format row.index ++ (' ' :: '|' :: ' ' :: '`' :: t)) := by
    rw [hline, after, if_pos (List.prefix_append _ _), List.drop_left]
  have hblank : isAsciiDigit ' ' = false := by decide
  unfold isFunctionRow
  rw [hafter]
  dsimp only
  rw [List.takeWhile_append_of_pos hdigits, List.dropWhile_append_of_pos hdigits,
    List.takeWhile_cons_of_neg (by rw [hblank]; exact Bool.false_ne_true),
    List.dropWhile_cons_of_neg (by rw [hblank]; exact Bool.false_ne_true),
    List.append_nil, Bool.and_eq_true, decide_eq_true_eq]
  refine ⟨?_, ⟨_, rfl⟩⟩
  simpa using format_ne_nil row.index

/-- A row's line is counted. -/
theorem isFunctionRow_line (row : MarkdownRow) : isFunctionRow row.line = true := by
  have hline : row.line = row.opening ++ (row.signature ++ "` | ".toList
      ++ blankNewlines false (escapeBars row.description) ++ " |".toList) := by
    simp [MarkdownRow.line, MarkdownRow.opening]
  rw [hline]
  exact isFunctionRow_opening row _

/-- Of a category's part the rows' lines are counted. -/
theorem filter_categoryLines (category : Text) (rows : List MarkdownRow) :
    (categoryLines category rows).filter isFunctionRow
      = rows.map MarkdownRow.line := by
  have hrows : (rows.map MarkdownRow.line).filter isFunctionRow
      = rows.map MarkdownRow.line := by
    rw [List.filter_eq_self]
    intro line hline
    obtain ⟨row, -, rfl⟩ := List.mem_map.mp hline
    exact isFunctionRow_line row
  have hheading : isFunctionRow ("#### ".toList ++ category) = false := rfl
  unfold categoryLines
  rw [List.filter_append, hrows]
  have hothers : List.filter isFunctionRow [[], "#### ".toList ++ category, [],
      "| Row | Signature | Description |".toList, "|---|---|---|".toList] = [] := by
    rw [List.filter_eq_nil_iff]
    simp only [List.mem_cons, List.not_mem_nil, or_false]
    rintro line (rfl | rfl | rfl | rfl | rfl)
    · decide
    · rw [hheading]
      exact Bool.false_ne_true
    · decide
    · decide
    · decide
  rw [hothers, List.nil_append]

/-- The lines that are counted are those of the rows. -/
theorem filter_lines_getMarkdown {rows : List MarkdownRow}
    (hcategory : ∀ row ∈ rows, '\n' ∉ row.category)
    (hsignature : ∀ row ∈ rows, '\n' ∉ row.signature) :
    ((lines (getMarkdown rows)).filter isFunctionRow).Perm
      (rows.map MarkdownRow.line) := by
  have hgroup := groupOn_perm MarkdownRow.category rows
  have hplain : ∀ l ∈ markdownLines rows, '\n' ∉ l := by
    unfold markdownLines categoryLines
    rw [List.forall_mem_cons]
    refine ⟨by decide, fun l hl => ?_⟩
    obtain ⟨group, hmem, hl⟩ := List.mem_flatMap.mp hl
    rcases List.mem_append.mp hl with hl | hl
    · have hkey : '\n' ∉ group.1 := by
        obtain ⟨row, hrow, hkey⟩ := List.mem_map.mp
          (mem_keys_groupOn (List.mem_map_of_mem (f := Prod.fst) hmem))
        rw [← hkey]
        exact hcategory row hrow
      simp only [List.mem_cons, List.not_mem_nil, or_false] at hl
      rcases hl with rfl | rfl | rfl | rfl | rfl
      · exact List.not_mem_nil
      · rw [List.mem_append, not_or]
        exact ⟨by decide, hkey⟩
      · exact List.not_mem_nil
      · decide
      · decide
    · obtain ⟨row, hrow, rfl⟩ := List.mem_map.mp hl
      apply newline_not_mem_line
      apply hsignature row
      exact hgroup.mem_iff.mp (List.mem_flatMap.mpr ⟨group, hmem, hrow⟩)
  have hfilter : (lines (getMarkdown rows)).filter isFunctionRow
      = ((groupOn MarkdownRow.category rows).flatMap Prod.snd).map
        MarkdownRow.line := by
    rw [getMarkdown_eq, lines_flatMap hplain, List.filter_append]
    unfold markdownLines
    rw [List.filter_cons_of_neg (by decide), List.filter_flatMap, List.map_flatMap]
    simp only [filter_categoryLines]
    exact List.append_nil _
  rw [hfilter]
  exact hgroup.map _

-- ===================================================================== grep

theorem not_isGrepEnd {t : Text} (hnewline : '\n' ∉ t) (hnul : '\x00' ∉ t) :
    ∀ c ∈ t, isGrepEnd c = false := by
  intro c hc
  unfold isGrepEnd
  rw [Bool.or_eq_false_iff, beq_eq_false_iff_ne, beq_eq_false_iff_ne]
  exact ⟨fun heq => hnewline (heq ▸ hc), fun heq => hnul (heq ▸ hc)⟩

/-- A line that does not begin with a bar is none of a row. -/
theorem isFunctionRow_of_head {t : Text} (h : t.head? ≠ some '|') :
    isFunctionRow t = false := by
  unfold isFunctionRow
  rw [after, if_neg]
  intro hprefix
  obtain ⟨rest, rfl⟩ := hprefix
  exact h rfl

/-- The bars of a description come after a backslash. -/
theorem notAfter_description (inside after : Bool) (t : Text) :
    NotAfter isGrepEnd '|' after
      (blankNewlines inside (escapeBars t) ++ " |".toList) := by
  induction t generalizing inside after with
  | nil => exact ⟨fun h => absurd h (by decide), fun _ => rfl, trivial⟩
  | cons c t ih =>
      by_cases hbar : c = '|'
      · have hescape : escapeBars (c :: t) = '\\' :: '|' :: escapeBars t := by
          rw [hbar]
          rfl
        rw [hescape]
        refine ⟨fun h => absurd h (by decide), fun _ => rfl, ih _ _⟩
      · have hescape : escapeBars (c :: t) = c :: escapeBars t := by
          unfold escapeBars
          rw [List.flatMap_cons, if_neg hbar]
          rfl
        rw [hescape]
        unfold blankNewlines
        by_cases hend : c = '\r' ∨ c = '\n'
        · rw [if_pos hend]
          cases inside with
          | true => exact ih _ _
          | false => exact ⟨fun h => absurd h (by decide), ih _ _⟩
        · rw [if_neg hend]
          exact ⟨fun h => absurd h hbar, ih _ _⟩

/-- A row is counted once, whatever its description holds. -/
theorem countP_line {row : MarkdownRow} (hnewline : '\n' ∉ row.signature)
    (hnul : '\x00' ∉ row.signature) :
    (row.line.splitOnP isGrepEnd).countP isFunctionRow = 1 := by
  have hline : row.line = (row.opening ++ row.signature ++ "` | ".toList)
      ++ (blankNewlines false (escapeBars row.description) ++ " |".toList) := by
    simp [MarkdownRow.line, MarkdownRow.opening]
  have hfront : ∀ c ∈ row.opening ++ row.signature ++ "` | ".toList,
      isGrepEnd c = false := by
    have hformat : '\x00' ∉ format row.index :=
      fun hmem => absurd (format_digits _ _ hmem) (by decide)
    apply not_isGrepEnd
    · simp only [MarkdownRow.opening, List.mem_append, not_or]
      exact ⟨⟨⟨⟨by decide, newline_not_mem_format _⟩, by decide⟩, hnewline⟩,
        by decide⟩
    · simp only [MarkdownRow.opening, List.mem_append, not_or]
      exact ⟨⟨⟨⟨by decide, hformat⟩, by decide⟩, hnul⟩, by decide⟩
  obtain ⟨first, others, hsplit⟩ := List.exists_cons_of_ne_nil
    (List.splitOnP_ne_nil isGrepEnd
      (blankNewlines false (escapeBars row.description) ++ " |".toList))
  have htail := (not_head_of_notAfter
    (notAfter_description false false row.description)).1
  rw [hsplit] at htail
  have hothers : others.countP isFunctionRow = 0 := by
    rw [List.countP_eq_zero]
    intro part hpart
    rw [isFunctionRow_of_head (htail part hpart)]
    exact Bool.false_ne_true
  rw [hline, splitOnP_append_of_forall hfront, hsplit, List.modifyHead_cons,
    List.countP_cons_of_pos, hothers]
  rw [List.append_assoc, List.append_assoc]
  exact isFunctionRow_opening row _

/-- grep counts the rows of a category's part. -/
theorem countP_categoryLines {category : Text} {rows : List MarkdownRow}
    (hnewline : '\n' ∉ category) (hnul : '\x00' ∉ category)
    (hrows : ∀ row ∈ rows, '\n' ∉ row.signature ∧ '\x00' ∉ row.signature) :
    ((categoryLines category rows).flatMap
      (List.splitOnP isGrepEnd)).countP isFunctionRow = rows.length := by
  have hheading : ("#### ".toList ++ category).splitOnP isGrepEnd
      = ["#### ".toList ++ category] := by
    apply List.splitOnP_eq_singleton
    apply not_isGrepEnd
    · rw [List.mem_append, not_or]
      exact ⟨by decide, hnewline⟩
    · rw [List.mem_append, not_or]
      exact ⟨by decide, hnul⟩
  have hopening : ([[], "#### ".toList ++ category, [],
      "| Row | Signature | Description |".toList,
      "|---|---|---|".toList].flatMap (List.splitOnP isGrepEnd)).countP
        isFunctionRow = 0 := by
    simp only [List.flatMap_cons, List.flatMap_nil, hheading, List.countP_append]
    rfl
  have hlines : ((rows.map MarkdownRow.line).flatMap
      (List.splitOnP isGrepEnd)).countP isFunctionRow = rows.length := by
    induction rows with
    | nil => rfl
    | cons row rows ih =>
        rw [List.forall_mem_cons] at hrows
        rw [List.map_cons, List.flatMap_cons, List.countP_append,
          countP_line hrows.1.1 hrows.1.2, ih hrows.2, List.length_cons,
          Nat.add_comm]
  unfold categoryLines
  rw [List.flatMap_append, List.countP_append, hopening, hlines, Nat.zero_add]

/-- grep counts the rows. -/
theorem countRows_getMarkdown {rows : List MarkdownRow}
    (hcategory : ∀ row ∈ rows, '\n' ∉ row.category ∧ '\x00' ∉ row.category)
    (hsignature : ∀ row ∈ rows, '\n' ∉ row.signature ∧ '\x00' ∉ row.signature) :
    countRows (getMarkdown rows) = rows.length := by
  have hgroup := groupOn_perm MarkdownRow.category rows
  have hgroups : ∀ groups : List (Text × List MarkdownRow),
      groups ⊆ groupOn MarkdownRow.category rows →
      ((groups.flatMap fun group => categoryLines group.1 group.2).flatMap
        (List.splitOnP isGrepEnd)).countP isFunctionRow
        = (groups.flatMap Prod.snd).length := by
    intro groups hsub
    induction groups with
    | nil => rfl
    | cons group groups ih =>
        rw [List.cons_subset] at hsub
        obtain ⟨row, hrow, hkey⟩ := List.mem_map.mp
          (mem_keys_groupOn (List.mem_map_of_mem (f := Prod.fst) hsub.1))
        have hname := hcategory row hrow
        rw [hkey] at hname
        have hrows : ∀ row ∈ group.2,
            '\n' ∉ row.signature ∧ '\x00' ∉ row.signature := by
          intro row hrow
          apply hsignature row
          exact hgroup.mem_iff.mp (List.mem_flatMap.mpr ⟨group, hsub.1, hrow⟩)
        rw [List.flatMap_cons, List.flatMap_append, List.countP_append,
          countP_categoryLines hname.1 hname.2 hrows, ih hsub.2,
          List.flatMap_cons, List.length_append]
  have hmarkdown : getMarkdown rows
      = (markdownLines rows).flatMap fun l => l ++ ['\n'] := getMarkdown_eq rows
  unfold countRows
  rw [hmarkdown, splitOnP_flatMap rfl, List.countP_append]
  unfold markdownLines
  rw [List.flatMap_cons, List.countP_append, hgroups _ (List.Subset.refl _),
    hgroup.length_eq]
  have hopening : (("Row 0 is the reserved `CDLL_VERSION` marker.".toList).splitOnP
      isGrepEnd).countP isFunctionRow = 0 := by
    decide
  rw [hopening, Nat.zero_add]
  rfl

-- =============================================================== signatures

/-- The CAPL text of a parameter. -/
def Param.signature (p : Param) : Text := paramText p.type p.name p.dimension

/-- The CAPL text of a function. -/
def Function.signature (f : Function) : Text :=
  signatureText (typeNames f.result) f.name (f.params.map Param.signature)

/-- UTF-8 decodes ASCII as what it is. -/
def Platform.DecodesAscii (os : Platform) : Prop :=
  ∀ bs : Bytes, (∀ b ∈ bs, b.toNat < 128) → os.getString bs = byteText bs

variable {os : Platform} {consts : Consts} {seen : List Bytes}

theorem toNat_byteChar (b : UInt8) : (Char.ofNat b.toNat).toNat = b.toNat := by
  have hlt : b.toNat < 256 := b.toNat_lt
  rw [Char.ofNat, dif_pos (Or.inl (by omega))]
  rfl

/-- An identifier is shown as it is written. -/
theorem getString_identifier (hascii : os.DecodesAscii) {raw : Bytes}
    (h : ∀ c ∈ byteText raw, isIdentChar c = true) :
    os.getString raw = byteText raw := by
  apply hascii
  intro b hb
  have hchar := printable_of_isIdentChar (h _ (List.mem_map_of_mem hb))
  rw [toNat_byteChar] at hchar
  omega

theorem printable_identifier {t : Text} (h : ∀ c ∈ t, isIdentChar c = true) :
    ∀ c ∈ t, 32 ≤ c.toNat :=
  fun c hc => (printable_of_isIdentChar (h c hc)).1

theorem printable_of_all {t : Text}
    (h : t.all (fun c => decide (32 ≤ c.toNat)) = true) :
    ∀ c ∈ t, 32 ≤ c.toNat := by
  simpa using h

theorem printable_typeNames (base : Char) :
    ∀ c ∈ typeNames base, 32 ≤ c.toNat := by
  unfold typeNames
  split <;> exact printable_of_all (by decide)

theorem printable_paramText {cls : TypeClass} {name : Text} {dv : Nat}
    (h : ∀ c ∈ name, 32 ≤ c.toNat) :
    ∀ c ∈ paramText cls name dv, 32 ≤ c.toNat := by
  unfold paramText typeText dimensionSuffix
  simp only [List.forall_mem_append]
  refine ⟨⟨⟨⟨printable_typeNames _, ?_⟩, printable_of_all (by decide)⟩, h⟩, ?_⟩
  · split <;> exact printable_of_all (by decide)
  · split
    · exact printable_of_all (by decide)
    · split <;> exact printable_of_all (by decide)

/-- A signature holds no control character. -/
theorem printable_signature {f : Function}
    (h : ∀ c ∈ f.name, isIdentChar c = true) :
    ∀ c ∈ f.signature, 32 ≤ c.toNat := by
  unfold Function.signature signatureText
  simp only [List.forall_mem_append]
  refine ⟨⟨⟨⟨⟨printable_typeNames _, printable_of_all (by decide)⟩,
    printable_identifier h⟩, printable_of_all (by decide)⟩, ?_⟩,
    printable_of_all (by decide)⟩
  intro c hmem
  obtain hsep | ⟨sig, hsig, hmem⟩ := mem_intercalate hmem
  · have hall : ∀ c ∈ ", ".toList, 32 ≤ c.toNat := printable_of_all (by decide)
    exact hall c hsep
  · obtain ⟨p, -, rfl⟩ := List.mem_map.mp hsig
    exact printable_paramText
      (printable_identifier (isIdentChar_of_mem p.isIdent)) c hmem

/-- So it is on one line. -/
theorem oneLine_signature {f : Function}
    (h : ∀ c ∈ f.name, isIdentChar c = true) :
    '\n' ∉ f.signature ∧ '\x00' ∉ f.signature :=
  ⟨fun hmem => absurd (printable_signature h _ hmem) (by decide),
    fun hmem => absurd (printable_signature h _ hmem) (by decide)⟩

-- ==================================================================== a row

theorem items_of_emptyString {ts : ListItems}
    (h : getListItems [.str []] = some ts) : ts.items = [] := by
  cases h
  rfl

/-- The parameters check 7 leaves are those the lists say. -/
theorem Listed.parameters {f5 f6 f7 f8 : Field} {pars : List Parameter}
    {params : List Param} (hlisted : Listed f5 f6 f7 f8 pars)
    (hlists : ListsSay consts f6 f7 f8 params) :
    List.Forall₂ (ParamSays consts) pars params := by
  cases hlisted with
  | empty _ htypes =>
      cases hlists with
      | empty => exact .nil
      | entries hne htypes' _ _ htype' =>
          rw [htypes] at htypes'
          rw [items_of_emptyString htypes'] at htype'
          exact absurd (List.map_eq_nil_iff.mp htype'.symm) hne
  | entries _ hne _ htypes hdims hnames htype hdim hname =>
      cases hlists with
      | empty =>
          rw [items_of_emptyString htypes] at htype
          exact absurd (List.map_eq_nil_iff.mp htype.symm) hne
      | entries _ htypes' hdims' hnames' htype' hdim' hname' =>
          rw [htypes] at htypes'
          rw [hdims] at hdims'
          rw [hnames] at hnames'
          cases htypes'
          cases hdims'
          cases hnames'
          rw [htype, List.map_map] at htype'
          rw [hdim, List.map_map] at hdim'
          have hnames : (pars.map fun par => some (byteText par.name))
              = params.map fun p => some p.name := by
            rw [← hname']
            have hmap := congrArg (List.map (Option.map byteText)) hname
            rw [List.map_map, List.map_map] at hmap
            exact hmap.symm
          apply List.Forall₂.mp ?_ (forall₂_of_map_eq_map htype')
            (List.Forall₂.mp (fun _ _ hdim hname => And.intro hdim hname)
              (forall₂_of_map_eq_map hdim') (forall₂_of_map_eq_map hnames))
          intro par p htype hrest
          exact ⟨htype, hrest.1, Option.some.inj hrest.2⟩

theorem paramSig_means (hascii : os.DecodesAscii) {par : Parameter} {p : Param}
    (h : ParamSays consts par p) : paramSig os consts par = some p.signature := by
  obtain ⟨htype, hdim, hname⟩ := h
  have hident : ∀ c ∈ byteText par.name, isIdentChar c = true := by
    rw [hname]
    exact isIdentChar_of_mem p.isIdent
  unfold typeOf at htype
  unfold paramSig
  cases hresolve : resolveTypeItem consts par.type with
  | error problem =>
      rw [hresolve] at htype
      cases htype
  | ok cls =>
      rw [hresolve] at htype
      cases htype
      rw [hdim]
      dsimp only
      rw [getString_identifier hascii hident, hname]
      rfl

theorem paramSigs_mean (hascii : os.DecodesAscii) {pars : List Parameter}
    {params : List Param} (h : List.Forall₂ (ParamSays consts) pars params) :
    pars.mapM (paramSig os consts) = some (params.map Param.signature) := by
  induction h with
  | nil => rfl
  | cons hpar _ ih =>
      rw [List.mapM_cons, paramSig_means hascii hpar, ih]
      rfl

theorem stringText_of_check6 {what : Text} {f : Field} (h : check6 what f = []) :
    ∃ t, stringText os f = some t := by
  unfold check6 at h
  split at h
  next hstr =>
    unfold nonEmptyStr at hstr
    split at hstr
    next value =>
      refine ⟨os.getString value, ?_⟩
      unfold stringText
      dsimp only
      rw [if_neg]
      simpa using hstr
    next => cases hstr
  next => cases h

/-- A row names its function by an identifier. -/
theorem RowSays.name {fields : List Field} {f : Function}
    (h : RowSays consts fields f) : ∀ c ∈ f.name, isIdentChar c = true := by
  cases h with
  | @row _ _ ident _ _ _ _ _ _ _ _ hident =>
      rw [← hident]
      exact isIdentChar_of_mem ident.isIdent

/-- A row that passes the checks is listed with its function's signature. -/
theorem markdownRow_means (hascii : os.DecodesAscii) {row : Row} {f : Function}
    (hsilent : checkRow os consts seen row = [])
    (hmeans : RowSays consts row.fields f) :
    ∃ r, markdownRow os consts row = some r ∧ r.index = row.index
      ∧ r.signature = f.signature := by
  obtain ⟨index, line, fields⟩ := row
  have hname := hmeans.name
  cases hmeans with
  | @row _ raw ident cls category description result types dims names hraw hident
      hresult hbase hvalue hlists =>
      unfold checkRow at hsilent
      dsimp only at hsilent
      rw [List.map_eq_nil_iff] at hsilent
      simp only [checkFields, List.append_eq_nil_iff] at hsilent
      obtain ⟨⟨⟨-, hcategory⟩, hdescription⟩, hrest⟩ := hsilent
      obtain ⟨categoryText, hcategory⟩ : ∃ t, stringText os category = some t :=
        stringText_of_check6 hcategory
      obtain ⟨descriptionText, hdescription⟩ :
          ∃ t, stringText os description = some t :=
        stringText_of_check6 hdescription
      split at hrest
      next findings hfindings => exact absurd hrest (check7_error_ne_nil hfindings)
      next pars hpars =>
        have hparams := paramSigs_mean hascii ((of_check7 hpars).parameters hlists)
        have hreturn : returnClass consts result = some cls := by
          unfold returnClass
          rw [hresult]
          dsimp only
          rw [if_pos ⟨hvalue, hbase ▸ f.returns⟩]
        have hshown : os.getString raw = f.name := by
          rw [← hraw]
          apply getString_identifier hascii
          rw [hraw]
          exact hname
        refine ⟨⟨index, categoryText, descriptionText, f.signature⟩, ?_, rfl, rfl⟩
        unfold markdownRow Row.nameRaw
        dsimp only
        rw [hcategory, hdescription, hpars, hreturn]
        simp only [Option.bind_eq_bind, Option.bind_some, Except.toOption, hparams,
          hshown, hbase]
        rfl

-- ================================================================== a table

/-- The rows are numbered as they stand. -/
theorem readRows_index {index skip : Nat} {ts : List Token} {rows : List Row}
    (h : readRows index skip ts = .ok rows) :
    rows.map Row.index = List.range' index rows.length := by
  induction ts generalizing index skip rows with
  | nil =>
      cases h
      rfl
  | cons t ts ih =>
      cases skip with
      | succ skip => exact ih h
      | zero =>
          rw [readRows] at h
          split at h
          next =>
            split at h
            next => cases h
            next =>
              obtain ⟨others, hothers, rfl⟩ := exists_of_map_ok h
              rw [List.map_cons, List.length_cons, List.range'_succ, ih hothers]
          next => cases h

theorem silent_of_checkRows {rows : List Row}
    (h : checkRows os consts seen rows = []) :
    ∀ row ∈ rows, ∃ seen, checkRow os consts seen row = [] := by
  induction rows generalizing seen with
  | nil => exact List.forall_mem_nil _
  | cons row rows ih =>
      rw [checkRows, List.append_eq_nil_iff] at h
      rw [List.forall_mem_cons]
      exact ⟨⟨seen, h.1⟩, ih h.2⟩

/-- The rows between the outer ones are the functions' and are silent. -/
theorem between_of_checkTable {table : Table} (h : checkTable os table = []) :
    funcRows os table.rows = table.rows.tail.dropLast
      ∧ ∀ row ∈ table.rows.tail.dropLast,
        ∃ seen, checkRow os table.consts seen row = [] := by
  obtain ⟨first, between, last, hrows, -, hsentinel, hcheck⟩ := of_checkTable h
  have hbetween : table.rows.tail.dropLast = between := by
    rw [hrows, List.cons_append, List.tail_cons, List.dropLast_concat]
  constructor
  · unfold funcRows
    rw [if_pos]
    rw [hrows, hasSentinel, List.getLast?_concat, Bool.and_eq_true,
      decide_eq_true_eq]
    refine ⟨?_, hsentinel⟩
    simp
  · rw [hbetween]
    exact silent_of_checkRows hcheck

/-- Rows that pass the checks are listed one by one. -/
theorem filterMap_means (hascii : os.DecodesAscii) {rows : List Row}
    {fs : List Function}
    (hsilent : ∀ row ∈ rows, ∃ seen, checkRow os consts seen row = [])
    (hmeans : List.Forall₂ (RowSays consts) (rows.map Row.fields) fs) :
    (rows.filterMap (markdownRow os consts)).map MarkdownRow.signature
        = fs.map Function.signature
      ∧ (rows.filterMap (markdownRow os consts)).map MarkdownRow.index
        = rows.map Row.index := by
  rw [List.forall₂_map_left_iff] at hmeans
  induction hmeans with
  | nil => exact ⟨rfl, rfl⟩
  | cons hrow _ ih =>
      rw [List.forall_mem_cons] at hsilent
      obtain ⟨seen, hsilentRow⟩ := hsilent.1
      obtain ⟨r, hr, hindex, hsignature⟩ :=
        markdownRow_means hascii hsilentRow hrow
      obtain ⟨hsignatures, hindices⟩ := ih hsilent.2
      rw [List.filterMap_cons_some hr]
      simp only [List.map_cons, hindex, hsignature, hsignatures, hindices]
      exact ⟨trivial, trivial⟩

/-- The markdown rows and their text list these functions. -/
structure MarkdownLists (rows : List MarkdownRow) (fs : List Function) : Prop where
  /-- A row for each function, with its CAPL signature, under its number. -/
  signatures : rows.map MarkdownRow.signature = fs.map Function.signature
  numbers : rows.map MarkdownRow.index = List.range' 1 fs.length
  /-- Each under the heading of its category. -/
  grouped : ∀ group ∈ groupOn MarkdownRow.category rows, ∀ row ∈ group.2,
    row.category = group.1
  /-- One line each, and no other line is taken for one. -/
  lines : (∀ row ∈ rows, '\n' ∉ row.category) →
    ((lines (getMarkdown rows)).filter isFunctionRow).Perm
      (rows.map MarkdownRow.line)
  /-- grep counts them. -/
  count : (∀ row ∈ rows, '\n' ∉ row.category ∧ '\x00' ∉ row.category) →
    countRows (getMarkdown rows) = fs.length

theorem ordinal_decodesAscii : ordinal.DecodesAscii := fun _ _ => rfl

example : (readTable (oneFunction "\x7b\"id\"\x7d".toList)).2.map
    (fun table => (markdownRows ordinal table).map MarkdownRow.line)
      = some ["| 1 | `long restifyA(dword id)` | Text. |".toList] := by
  decide +kernel

end RestifyCapl.Export
