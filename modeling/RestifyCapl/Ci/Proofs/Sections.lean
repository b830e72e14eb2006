/-
Sections of CHANGELOG.md, taken out and put in.

Removing: what the loop of `Remove-UntaggedSections` does over lines it
keeps, over a section it drops and over a definition (`keepLines_append`,
`keepLines_section`, `keepLines_definition`).

Inserting: a file is cut in two at a `Place`, and `insertionOf` finds the
same place again in the parts (`insertionOf_place`). What `render` writes
has one shape (`render_shape`): the lines before, the section, a blank
line, lines up to the definition, the definition, and the rest. Without
section and definition `remains` is left of the lines after the place.
-/
import RestifyCapl.Ci.Proofs.ChangelogLines
import Mathlib.Data.List.TakeDrop

namespace RestifyCapl.Ci

variable {dropped released ls rest : List Text} {line hash : Text}

-- ================================================================ removing

/-- Neither a heading nor a definition of a dropped hash. -/
structure Keeps (dropped : List Text) (line : Text) : Prop where
  head : ∀ hash, reHashHead line = some hash → hash ∉ dropped
  definition : ∀ hash, reDefHash line = some hash → hash ∉ dropped

theorem Neutral.keeps (h : Neutral line) (dropped : List Text) :
    Keeps dropped line where
  head hash hhash := by
    rw [h.reHashHead] at hhash
    cases hhash
  definition hash hhash := by
    rw [h.reDefHash] at hhash
    cases hhash

theorem keeps_iff :
    Keeps dropped line ↔ (reHashHead line).any (· ∈ dropped) = false
      ∧ (reDefHash line).any (· ∈ dropped) = false := by
  constructor
  · rintro ⟨hhead, hdef⟩
    constructor
    · cases h : reHashHead line with
      | none => rfl
      | some hash => simpa using hhead hash h
    · cases h : reDefHash line with
      | none => rfl
      | some hash => simpa using hdef hash h
  · rintro ⟨hhead, hdef⟩
    constructor
    · intro hash h
      simpa [h] using hhead
    · intro hash h
      simpa [h] using hdef

theorem keepLines_cons (dropped : List Text) (skipping : Bool) (line : Text)
    (rest : List Text) : keepLines dropped skipping (line :: rest) =
      if skipping && !endsSection line then keepLines dropped true rest
      else if (reHashHead line).any (· ∈ dropped) then keepLines dropped true rest
      else if (reDefHash line).any (· ∈ dropped) then keepLines dropped false rest
      else line :: keepLines dropped false rest := rfl

theorem keepLines_append (h : ∀ line ∈ ls, Keeps dropped line) :
    keepLines dropped false (ls ++ rest) = ls ++ keepLines dropped false rest := by
  induction ls with
  | nil => rfl
  | cons line ls ih =>
      obtain ⟨hline, hls⟩ := List.forall_mem_cons.mp h
      obtain ⟨hhead, hdef⟩ := keeps_iff.mp hline
      rw [List.cons_append, keepLines_cons, hhead, hdef, ih hls]
      rfl

theorem keepLines_skip (h : ∀ line ∈ ls, endsSection line = false) :
    keepLines dropped true (ls ++ rest) = keepLines dropped true rest := by
  induction ls with
  | nil => rfl
  | cons line ls ih =>
      obtain ⟨hline, hls⟩ := List.forall_mem_cons.mp h
      rw [List.cons_append, keepLines_cons, hline, ih hls]
      rfl

theorem keepLines_resume (h : ∀ line ∈ rest.head?, endsSection line = true) :
    keepLines dropped true rest = keepLines dropped false rest := by
  cases rest with
  | nil => rfl
  | cons line rest =>
      rw [keepLines_cons, keepLines_cons, h line rfl]
      rfl

/-- A dropped section goes up to the line it ends at. -/
theorem keepLines_section (hhead : reHashHead line = some hash)
    (hdropped : hash ∈ dropped) (hls : ∀ line ∈ ls, endsSection line = false)
    (hrest : ∀ line ∈ rest.head?, endsSection line = true) :
    keepLines dropped false (line :: ls ++ rest)
      = keepLines dropped false rest := by
  have hskip : keepLines dropped true (ls ++ rest) = keepLines dropped true rest :=
    keepLines_skip hls
  rw [← keepLines_resume hrest, ← hskip, List.cons_append, keepLines_cons, hhead]
  simp [hdropped]

theorem keepLines_definition (hhead : reHashHead line = none)
    (hdef : reDefHash line = some hash) (hdropped : hash ∈ dropped) :
    keepLines dropped false (line :: rest) = keepLines dropped false rest := by
  rw [keepLines_cons, hhead, hdef]
  simp [hdropped]

theorem mem_keepLines {skipping : Bool}
    (h : line ∈ keepLines dropped skipping ls) :
    line ∈ ls ∧ Keeps dropped line := by
  induction ls generalizing skipping with
  | nil => cases h
  | cons first ls ih =>
      rw [keepLines_cons] at h
      split at h
      next => exact ⟨List.mem_cons_of_mem _ (ih h).1, (ih h).2⟩
      next =>
        split at h
        next => exact ⟨List.mem_cons_of_mem _ (ih h).1, (ih h).2⟩
        next hhead =>
          split at h
          next => exact ⟨List.mem_cons_of_mem _ (ih h).1, (ih h).2⟩
          next hdef =>
            rcases List.mem_cons.mp h with rfl | hmem
            · refine ⟨List.mem_cons_self, keeps_iff.mpr ⟨?_, ?_⟩⟩
              · simpa using hhead
              · simpa using hdef
            · exact ⟨List.mem_cons_of_mem _ (ih hmem).1, (ih hmem).2⟩

theorem mem_hashHeads :
    hash ∈ hashHeads ls ↔ ∃ line ∈ ls, reHashHead line = some hash :=
  List.mem_filterMap

theorem mem_removeSections (h : line ∈ removeSections released ls) :
    line ∈ ls := by
  unfold removeSections at h
  dsimp only at h
  split at h
  · exact h
  · exact (mem_keepLines h).1

/-- All hash headings that are left are released. -/
theorem hashHeads_removeSections
    (h : hash ∈ hashHeads (removeSections released ls)) : hash ∈ released := by
  obtain ⟨line, hline, hhead⟩ := mem_hashHeads.mp h
  have hls : hash ∈ hashHeads ls :=
    mem_hashHeads.mpr ⟨line, mem_removeSections hline, hhead⟩
  by_contra hnew
  have hdropped : hash ∈ (hashHeads ls).filter (· ∉ released) :=
    List.mem_filter.mpr ⟨hls, decide_eq_true hnew⟩
  unfold removeSections at hline
  dsimp only at hline
  split at hline
  next hempty =>
    rw [List.isEmpty_iff.mp hempty] at hdropped
    cases hdropped
  next => exact (mem_keepLines hline).2.head hash hhead hdropped

/-- With one hash that is not released, this one is dropped. -/
theorem removeSections_one (hmem : hash ∈ hashHeads ls) (hnew : hash ∉ released)
    (hothers : ∀ other ∈ hashHeads ls, other = hash ∨ other ∈ released) :
    ∃ dropped, (∀ other, other ∈ dropped ↔ other = hash)
      ∧ removeSections released ls = keepLines dropped false ls := by
  refine ⟨(hashHeads ls).filter (· ∉ released), ?_, ?_⟩
  · intro other
    rw [List.mem_filter, decide_eq_true_eq]
    constructor
    · rintro ⟨hother, hnewOther⟩
      exact (hothers other hother).resolve_right hnewOther
    · rintro rfl
      exact ⟨hmem, hnew⟩
  · unfold removeSections
    dsimp only
    rw [if_neg]
    rw [List.isEmpty_iff]
    exact List.ne_nil_of_mem
      (List.mem_filter.mpr ⟨hmem, decide_eq_true hnew⟩)

-- ============================================================ blank lines

variable {before after pre sectionLines : List Text} {cr definition : Text}

theorem needsBlank_append (hne : after ≠ []) :
    needsBlank (before ++ after) = needsBlank after := by
  unfold needsBlank
  rw [List.getLast?_append_of_ne_nil _ hne]

theorem needsBlank_snoc (ls : List Text) (line : Text) :
    needsBlank (ls ++ [line]) = !reBlank line := by
  simp [needsBlank]

theorem withBlank_append (hne : after ≠ []) :
    withBlank (before ++ after) cr = before ++ withBlank after cr := by
  unfold withBlank
  rw [needsBlank_append hne]
  split
  · rw [List.append_assoc]
  · rfl

theorem needsBlank_withBlank (hcr : IsCr cr) (ls : List Text) :
    needsBlank (withBlank ls cr) = false := by
  unfold withBlank
  split
  next => rw [needsBlank_snoc, hcr.blank, Bool.not_true]
  next h => simpa using h

theorem withBlank_of_not (h : needsBlank ls = false) : withBlank ls cr = ls := by
  unfold withBlank
  rw [h]
  rfl

theorem withBlank_withBlank (hcr : IsCr cr) (ls : List Text) :
    withBlank (withBlank ls cr) cr = withBlank ls cr :=
  withBlank_of_not (needsBlank_withBlank hcr ls)

theorem mem_withBlank (h : line ∈ withBlank ls cr) : line ∈ ls ∨ line = cr := by
  unfold withBlank at h
  split at h
  · simpa using h
  · exact Or.inl h

theorem endsSection_false :
    endsSection line = false ↔ reHead line = false ∧ reLinkDef line = false := by
  unfold endsSection
  rw [Bool.or_eq_false_iff]

theorem span_append {p : Text → Bool} (hpre : ∀ l ∈ pre, p l = true)
    (hline : p line = false) :
    (pre ++ line :: rest).span p = (pre, line :: rest) := by
  rw [List.span_eq_takeWhile_dropWhile, List.takeWhile_append_of_pos hpre,
    List.dropWhile_append_of_pos hpre,
    List.takeWhile_cons_of_neg (by simp [hline]),
    List.dropWhile_cons_of_neg (by simp [hline]), List.append_nil]

theorem not_any {p : Text → Bool} (h : ∀ line ∈ ls, p line = false) :
    ¬ ls.any p = true := by
  simpa using h

theorem exists_first {p : Text → Bool} (hmem : line ∈ ls)
    (hline : p line = true) :
    ∃ pre first rest, ls = pre ++ first :: rest ∧ p first = true
      ∧ ∀ l ∈ pre, p l = false := by
  obtain ⟨first, hfirst⟩ : ∃ first, ls.find? p = some first :=
    Option.isSome_iff_exists.mp (List.find?_isSome.mpr ⟨line, hmem, hline⟩)
  obtain ⟨hp, pre, rest, hls, hpre⟩ := List.find?_eq_some_iff_append.mp hfirst
  exact ⟨pre, first, rest, hls, hp, by simpa using hpre⟩

theorem head_withBlank (line : Text) (ls : List Text) (cr : Text) :
    ∃ rest, withBlank (line :: ls) cr = line :: rest := by
  unfold withBlank
  split
  · exact ⟨ls ++ [cr], rfl⟩
  · exact ⟨ls, rfl⟩

theorem noDefinition_withBlank (hcr : IsCr cr)
    (h : ∀ l ∈ ls, reLinkDef l = false) :
    ∀ l ∈ withBlank ls cr, reLinkDef l = false := by
  intro l hl
  rcases mem_withBlank hl with hl | rfl
  · exact h l hl
  · exact (endsSection_false.mp hcr.neutral.endsSection).2

theorem head_of_cut {t₁ t₂ : List Text} (hline : reHead line = true)
    (hsplit : line :: rest = t₁ ++ t₂) : ∀ l ∈ t₁.head?, reHead l = true := by
  intro l hl
  cases t₁ with
  | nil => cases hl
  | cons first t₁ =>
      cases hl
      rw [List.cons_append] at hsplit
      injection hsplit with hfirst
      rw [← hfirst]
      exact hline

theorem crOf_self (hcr : IsCr cr) : crOf cr = cr := by
  rcases hcr with rfl | rfl <;> rfl

/-- A blank line at the end has the ending of the line before it. -/
theorem crOf_withBlank (hcr : cr = crOf (pre.getLast?.getD [])) :
    crOf ((withBlank pre cr).getLast?.getD []) = cr := by
  unfold withBlank
  split
  · rw [List.getLast?_concat, Option.getD_some, crOf_self (hcr ▸ isCr_crOf _)]
  · exact hcr.symm

-- =============================================================== the place

section Culture

variable [Culture]

theorem isEmptyText_cr : isEmptyText ['\r'] = false :=
  isEmptyText_cons (by decide) []

/-- A heading or a definition is not taken for an empty line. -/
theorem not_isEmptyText_of_endsSection (h : endsSection line = true) :
    isEmptyText line = false := by
  obtain ⟨c, rest, rfl⟩ := List.exists_cons_of_ne_nil
    (show line ≠ [] by rintro rfl; cases h)
  apply isEmptyText_cons
  by_cases hhead : reHead (c :: rest) = true
  · have hc := reHead_head hhead
    rw [List.head?_cons, Option.some.injEq] at hc
    rw [hc]
    decide
  · rw [endsSection, Bool.eq_false_iff.mpr hhead, Bool.false_or] at h
    have hc := reLinkDef_head h
    rw [List.head?_cons, Option.some.injEq] at hc
    rw [hc]
    decide

theorem endsSection_of_isEmptyText (h : isEmptyText line = true) :
    endsSection line = false := by
  by_contra hends
  rw [Bool.not_eq_false] at hends
  rw [not_isEmptyText_of_endsSection hends] at h
  cases h

/-- Where a section goes: before the first heading, before the first link
definition of a file without headings, or to the end. -/
inductive Place : List Text → List Text → Prop where
  | head {pre rest : List Text} {line : Text} (hline : reHead line = true)
      (hpre : ∀ l ∈ pre, reHead l = false) : Place pre (line :: rest)
  | definition {pre rest : List Text} {line : Text}
      (hline : reLinkDef line = true)
      (hpre : ∀ l ∈ pre, endsSection l = false)
      (hafter : ∀ l ∈ line :: rest, reHead l = false) : Place pre (line :: rest)
  | newline {pre : List Text} {last : Text}
      (hpre : ∀ l ∈ pre, endsSection l = false)
      (hlast : isEmptyText last = true) : Place pre [last]
  | finish {pre : List Text} (hpre : ∀ l ∈ pre, endsSection l = false)
      (hlast : pre.getLast?.any isEmptyText = false) : Place pre []

/-- The place is found again. -/
theorem splitAtSection_place (h : Place pre after) :
    splitAtSection (pre ++ after) = (pre, after) := by
  unfold splitAtSection
  cases h with
  | @head rest line hline hpre =>
      rw [if_pos (by simp [hline])]
      exact span_append (by simpa using hpre) (by simp [hline])
  | @definition rest line hline hpre hafter =>
      have hheads : ∀ l ∈ pre ++ line :: rest, reHead l = false := by
        intro l hl
        rcases List.mem_append.mp hl with hl | hl
        · exact (endsSection_false.mp (hpre l hl)).1
        · exact hafter l hl
      rw [if_neg (not_any hheads), if_pos (by simp [hline])]
      refine span_append ?_ (by simp [hline])
      intro l hl
      simp [(endsSection_false.mp (hpre l hl)).2]
  | @newline last hpre hlast =>
      have hnone : ∀ l ∈ pre ++ [last], endsSection l = false := by
        rw [List.forall_mem_append, List.forall_mem_singleton]
        exact ⟨hpre, endsSection_of_isEmptyText hlast⟩
      have hheads := fun l hl => (endsSection_false.mp (hnone l hl)).1
      have hdefs := fun l hl => (endsSection_false.mp (hnone l hl)).2
      rw [if_neg (not_any hheads), if_neg (not_any hdefs),
        if_pos (by simp [hlast]), List.dropLast_concat, List.getLast?_concat]
      rfl
  | finish hpre hlast =>
      have hheads : ∀ l ∈ pre, reHead l = false :=
        fun l hl => (endsSection_false.mp (hpre l hl)).1
      have hdefs : ∀ l ∈ pre, reLinkDef l = false :=
        fun l hl => (endsSection_false.mp (hpre l hl)).2
      rw [List.append_nil, if_neg (not_any hheads), if_neg (not_any hdefs),
        if_neg (Bool.eq_false_iff.mp hlast)]

/-- Every file has a place. -/
theorem exists_place (ls : List Text) :
    ∃ pre after, ls = pre ++ after ∧ Place pre after := by
  by_cases hheads : ∃ line ∈ ls, reHead line = true
  · obtain ⟨line, hmem, hline⟩ := hheads
    obtain ⟨pre, first, rest, hls, hfirst, hpre⟩ := exists_first hmem hline
    exact ⟨pre, _, hls, .head hfirst hpre⟩
  push Not at hheads
  have hheads : ∀ line ∈ ls, reHead line = false := by simpa using hheads
  by_cases hdefs : ∃ line ∈ ls, reLinkDef line = true
  · obtain ⟨line, hmem, hline⟩ := hdefs
    obtain ⟨pre, first, rest, hls, hfirst, hpre⟩ := exists_first hmem hline
    refine ⟨pre, _, hls, .definition hfirst ?_ ?_⟩
    · intro l hl
      exact endsSection_false.mpr
        ⟨hheads l (hls ▸ List.mem_append_left _ hl), hpre l hl⟩
    · intro l hl
      exact hheads l (hls ▸ List.mem_append_right _ hl)
  push Not at hdefs
  have hnone : ∀ line ∈ ls, endsSection line = false := by
    intro line hline
    exact endsSection_false.mpr ⟨hheads line hline, by simpa using hdefs line hline⟩
  rcases List.eq_nil_or_concat' ls with rfl | ⟨pre, last, rfl⟩
  · exact ⟨[], [], rfl, .finish hnone (by simp)⟩
  · by_cases hlast : isEmptyText last = true
    · exact ⟨pre, [last], rfl,
        .newline (fun l hl => hnone l (List.mem_append_left _ hl)) hlast⟩
    · exact ⟨pre ++ [last], [], by simp, .finish hnone (by simpa using hlast)⟩

theorem insertionOf_place (h : Place pre after) :
    insertionOf (pre ++ after)
      = ⟨withBlank pre (crOf (referenceLine pre after)),
          crOf (referenceLine pre after), after⟩ := by
  unfold insertionOf
  rw [splitAtSection_place h]

/-- Where the section of a file goes, with the line ending there. -/
theorem exists_insertion (ls : List Text) :
    ∃ pre after cr, ls = pre ++ after ∧ Place pre after ∧ IsCr cr
      ∧ cr = crOf (referenceLine pre after)
      ∧ insertionOf ls = ⟨withBlank pre cr, cr, after⟩ := by
  obtain ⟨pre, after, hsplit, hplace⟩ := exists_place ls
  refine ⟨pre, after, _, hsplit, hplace, isCr_crOf _, rfl, ?_⟩
  rw [hsplit]
  exact insertionOf_place hplace

-- ======================================================= what is rendered

/-- What is left of the lines after the place, without the definition. -/
def remains (cr : Text) (after : List Text) : List Text :=
  if after.any reLinkDef then after
  else if after = [] then (if cr = [] then [[]] else [])
  else if after.getLast?.any isEmptyText then
    withBlank after.dropLast cr ++ [[]]
  else withBlank after cr

/-- The lines written around a definition, whatever the section is. -/
structure Shape (before after : List Text) (cr : Text) (kept fin : List Text)
    (ending : Text) : Prop where
  render : ∀ sectionLines definition,
    needsBlank (sectionLines.map (· ++ cr)) = true →
    render ⟨before, cr, after⟩ sectionLines definition
      = before ++ sectionLines.map (· ++ cr)
        ++ cr :: (kept ++ (definition ++ ending) :: fin)
  remains : remains cr after = kept ++ fin
  ending : IsCr ending
  head : ∀ line ∈ kept.head?, reHead line = true
  noDefinition : ∀ line ∈ kept, reLinkDef line = false

theorem render_of_definition {t₁ t₂ : List Text} {cr : Text}
    (ht₁ : ∀ l ∈ t₁, reLinkDef l = false) (hline : reLinkDef line = true) :
    render ⟨before, cr, t₁ ++ line :: t₂⟩ sectionLines definition
      = before ++ sectionLines.map (· ++ cr)
        ++ cr :: (t₁ ++ (definition ++ cr) :: line :: t₂) := by
  have hpos : ∀ l ∈ t₁, (!reLinkDef l) = true := fun l hl => by simp [ht₁ l hl]
  unfold render
  dsimp only
  rw [List.dropWhile_append_of_pos hpos, List.takeWhile_append_of_pos hpos,
    List.dropWhile_cons_of_neg (by simp [hline]),
    List.takeWhile_cons_of_neg (by simp [hline])]
  simp

theorem render_of_none (hafter : ∀ l ∈ after, reLinkDef l = false) :
    render ⟨before, cr, after⟩ sectionLines definition =
      (let out := before ++ sectionLines.map (· ++ cr) ++ [cr] ++ after
      if out.getLast?.any isEmptyText then
        withBlank out.dropLast cr ++ [definition ++ cr, []]
      else withBlank out cr ++ [definition]) := by
  have hdrop : after.dropWhile (fun line => !reLinkDef line) = [] := by
    rw [List.dropWhile_eq_nil_iff]
    intro l hl
    simp [hafter l hl]
  unfold render
  rw [hdrop]

/-- Lines after the place, up to the one with the first definition. -/
theorem shape_of_definition {t₁ t₂ : List Text}
    (hcr : IsCr cr) (ht₁ : ∀ l ∈ t₁, reLinkDef l = false)
    (hline : reLinkDef line = true) (hhead : ∀ l ∈ t₁.head?, reHead l = true) :
    Shape before (t₁ ++ line :: t₂) cr t₁ (line :: t₂) cr where
  render _ _ _ := render_of_definition ht₁ hline
  remains := if_pos (by simp [hline])
  ending := hcr
  head := hhead
  noDefinition := ht₁

/-- A file with a heading, no definition and a last line that is taken for
the empty one after a final line feed. -/
theorem shape_of_head_newline {tail : List Text} {last : Text} (hcr : IsCr cr)
    (hline : reHead line = true)
    (hafter : ∀ l ∈ line :: tail, reLinkDef l = false)
    (hlast : isEmptyText last = true) :
    Shape before (line :: tail ++ [last]) cr (withBlank (line :: tail) cr) [[]]
      cr := by
  have hnone : ∀ l ∈ line :: tail ++ [last], reLinkDef l = false := by
    rw [List.forall_mem_append, List.forall_mem_singleton]
    exact ⟨hafter, (endsSection_false.mp (endsSection_of_isEmptyText hlast)).2⟩
  refine ⟨?_, ?_, hcr, ?_, noDefinition_withBlank hcr hafter⟩
  · intro sectionLines definition _
    rw [render_of_none hnone]
    dsimp only
    rw [← List.append_assoc, List.getLast?_concat, Option.any_some,
      if_pos hlast, List.dropLast_concat, withBlank_append (by simp)]
    simp
  · unfold remains
    rw [if_neg (not_any hnone), if_neg (by simp), List.getLast?_concat,
      Option.any_some, if_pos hlast, List.dropLast_concat]
  · obtain ⟨rest, hrest⟩ := head_withBlank line tail cr
    rw [hrest]
    intro l hl
    cases hl
    exact hline

/-- The same without the final line feed. -/
theorem shape_of_head_finish {tail : List Text} (hcr : IsCr cr)
    (hline : reHead line = true)
    (hafter : ∀ l ∈ line :: tail, reLinkDef l = false)
    (hlast : (line :: tail).getLast?.any isEmptyText = false) :
    Shape before (line :: tail) cr (withBlank (line :: tail) cr) [] [] := by
  refine ⟨?_, ?_, Or.inl rfl, ?_, noDefinition_withBlank hcr hafter⟩
  · intro sectionLines definition _
    rw [render_of_none hafter]
    dsimp only
    rw [List.getLast?_append_of_ne_nil _ (by simp),
      if_neg (Bool.eq_false_iff.mp hlast), withBlank_append (by simp)]
    simp
  · unfold remains
    rw [if_neg (not_any hafter), if_neg (by simp),
      if_neg (Bool.eq_false_iff.mp hlast), List.append_nil]
  · obtain ⟨rest, hrest⟩ := head_withBlank line tail cr
    rw [hrest]
    intro l hl
    cases hl
    exact hline

theorem shape_of_newline {last : Text} (hcr : IsCr cr)
    (hlast : isEmptyText last = true) : Shape before [last] cr [] [[]] cr := by
  have hnone : ∀ l ∈ [last], reLinkDef l = false := by
    rw [List.forall_mem_singleton]
    exact (endsSection_false.mp (endsSection_of_isEmptyText hlast)).2
  refine ⟨?_, ?_, hcr, by simp, by simp⟩
  · intro sectionLines definition _
    rw [render_of_none hnone]
    dsimp only
    rw [List.getLast?_concat, Option.any_some, if_pos hlast,
      List.dropLast_concat,
      withBlank_of_not (by rw [needsBlank_snoc, hcr.blank]; rfl)]
    simp
  · unfold remains
    rw [if_neg (not_any hnone), if_neg (by simp), List.getLast?_singleton,
      Option.any_some, if_pos hlast]
    rfl

theorem shape_of_finish :
    Shape before [] [] [] [[]] [] := by
  refine ⟨?_, rfl, Or.inl rfl, by simp, by simp⟩
  intro sectionLines definition hlast
  have hne : sectionLines.map (· ++ []) ≠ [] := by
    rintro hnil
    rw [hnil] at hlast
    cases hlast
  rw [render_of_none (by simp)]
  dsimp only
  rw [List.append_nil, List.getLast?_concat, Option.any_some,
    if_pos isEmptyText_nil, List.dropLast_concat, withBlank_append hne]
  unfold withBlank
  rw [hlast]
  simp

theorem shape_of_finish_cr : Shape before [] ['\r'] [] [] [] := by
  refine ⟨?_, rfl, Or.inl rfl, by simp, by simp⟩
  intro sectionLines definition _
  rw [render_of_none (by simp)]
  dsimp only
  rw [List.append_nil, List.getLast?_concat, Option.any_some,
    if_neg (Bool.eq_false_iff.mp isEmptyText_cr),
    withBlank_of_not (by rw [needsBlank_snoc]; decide)]
  simp

/-- A last line that needs a blank one, and is not taken for the empty one
after a final line feed, is followed by one that ends in a carriage return,
so that the end of the file stays without a line feed. -/
def KeepsEnd (cr : Text) (after : List Text) : Prop :=
  after.any reHead = true → after.any reLinkDef = false →
    after.getLast?.any isEmptyText = false → needsBlank after = true →
      cr = ['\r']

theorem exists_tail_of_newline (hline : reHead line = true)
    (hlast : (line :: rest).getLast?.any isEmptyText = true) :
    ∃ t last, line :: rest = line :: t ++ [last]
      ∧ isEmptyText last = true := by
  rcases List.eq_nil_or_concat' rest with rfl | ⟨t, last, rfl⟩
  · rw [List.getLast?_singleton, Option.any_some] at hlast
    have hends : endsSection line = true := by
      rw [endsSection, hline, Bool.true_or]
    rw [not_isEmptyText_of_endsSection hends] at hlast
    cases hlast
  · rw [← List.cons_append, List.getLast?_concat, Option.any_some] at hlast
    exact ⟨t, last, rfl, hlast⟩

/-- What can follow a place: lines up to the first definition, lines from a
heading on, or the end of a file without both. -/
inductive Following : List Text → Prop where
  | definition {t₁ t₂ : List Text} {line : Text}
      (ht₁ : ∀ l ∈ t₁, reLinkDef l = false) (hline : reLinkDef line = true)
      (hhead : ∀ l ∈ t₁.head?, reHead l = true) : Following (t₁ ++ line :: t₂)
  | headNewline {t : List Text} {line last : Text} (hline : reHead line = true)
      (hnone : ∀ l ∈ line :: t, reLinkDef l = false)
      (hlast : isEmptyText last = true) : Following (line :: t ++ [last])
  | headFinish {t : List Text} {line : Text} (hline : reHead line = true)
      (hnone : ∀ l ∈ line :: t, reLinkDef l = false)
      (hlast : (line :: t).getLast?.any isEmptyText = false) :
      Following (line :: t)
  | newline {last : Text} (hlast : isEmptyText last = true) : Following [last]
  | finish : Following []

theorem Place.following (h : Place pre after) : Following after := by
  cases h with
  | @head rest line hline hpre =>
      by_cases hdefs : ∃ l ∈ line :: rest, reLinkDef l = true
      · obtain ⟨l, hmem, hdef⟩ := hdefs
        obtain ⟨t₁, first, t₂, hafter, hfirst, ht₁⟩ := exists_first hmem hdef
        have hhead := head_of_cut hline hafter
        rw [hafter]
        exact .definition ht₁ hfirst hhead
      push Not at hdefs
      have hnone : ∀ l ∈ line :: rest, reLinkDef l = false := by simpa using hdefs
      by_cases hlast : (line :: rest).getLast?.any isEmptyText = true
      · obtain ⟨t, last, ht, hempty⟩ := exists_tail_of_newline hline hlast
        rw [ht] at hnone ⊢
        exact .headNewline hline
          (fun l hl => hnone l (List.mem_append_left _ hl)) hempty
      · exact .headFinish hline hnone (Bool.eq_false_iff.mpr hlast)
  | @definition rest line hline hpre hafter =>
      have hnone : ∀ l ∈ ([] : List Text), reLinkDef l = false := by simp
      have hhead : ∀ l ∈ ([] : List Text).head?, reHead l = true := by simp
      exact .definition hnone hline hhead
  | newline hpre hlast => exact .newline hlast
  | finish hpre hlast => exact .finish

/-- All that is generated has a shape. -/
theorem exists_shape (hplace : Place pre after) (hcr : IsCr cr) :
    ∃ kept fin ending, Shape before after cr kept fin ending := by
  cases hplace.following with
  | definition ht₁ hline hhead =>
      exact ⟨_, _, _, shape_of_definition hcr ht₁ hline hhead⟩
  | headNewline hline hnone hlast =>
      exact ⟨_, _, _, shape_of_head_newline hcr hline hnone hlast⟩
  | headFinish hline hnone hlast =>
      exact ⟨_, _, _, shape_of_head_finish hcr hline hnone hlast⟩
  | newline hlast => exact ⟨_, _, _, shape_of_newline hcr hlast⟩
  | finish =>
      rcases hcr with rfl | rfl
      · exact ⟨_, _, _, shape_of_finish⟩
      · exact ⟨_, _, _, shape_of_finish_cr⟩

/-- What is left of the lines after the place has the same shape. -/
theorem shape_remains (hplace : Place pre after) (hcr : IsCr cr)
    (hend : KeepsEnd cr after) :
    ∃ kept fin ending, Shape before after cr kept fin ending
      ∧ Shape before (remains cr after) cr kept fin ending := by
  have hsame : ∀ {kept fin ending}, remains cr after = after →
      Shape before after cr kept fin ending →
      ∃ kept fin ending, Shape before after cr kept fin ending
        ∧ Shape before (remains cr after) cr kept fin ending := by
    intro kept fin ending heq h
    exact ⟨kept, fin, ending, h, heq.symm ▸ h⟩
  cases hplace.following with
  | definition ht₁ hline hhead =>
      exact hsame (if_pos (by simp [hline]))
        (shape_of_definition hcr ht₁ hline hhead)
  | @headNewline t line last hline hnone hlast =>
      have hshape : Shape before (line :: t ++ [last]) cr _ _ _ :=
        shape_of_head_newline hcr hline hnone hlast
      obtain ⟨more, hmore⟩ := head_withBlank line t cr
      have hagain := withBlank_withBlank hcr (line :: t)
      refine ⟨_, _, _, hshape, ?_⟩
      rw [hshape.remains]
      rw [hmore] at hagain ⊢
      conv => arg 4; rw [← hagain]
      exact shape_of_head_newline hcr hline
        (hmore ▸ noDefinition_withBlank hcr hnone) isEmptyText_nil
  | @headFinish t line hline hnone hlast =>
      have hshape : Shape before (line :: t) cr _ _ _ :=
        shape_of_head_finish hcr hline hnone hlast
      obtain ⟨more, hmore⟩ := head_withBlank line t cr
      have hagain := withBlank_withBlank hcr (line :: t)
      have hmoreLast :
          (withBlank (line :: t) cr).getLast?.any isEmptyText = false := by
        unfold withBlank
        split
        next hneeds =>
          have hcr' := hend (by simp [hline])
            (Bool.not_eq_true _ ▸ not_any hnone) hlast hneeds
          rw [List.getLast?_concat, hcr', Option.any_some, isEmptyText_cr]
        next => exact hlast
      refine ⟨_, _, _, hshape, ?_⟩
      rw [hshape.remains, List.append_nil]
      rw [hmore] at hagain hmoreLast ⊢
      conv => arg 4; rw [← hagain]
      exact shape_of_head_finish hcr hline
        (hmore ▸ noDefinition_withBlank hcr hnone) hmoreLast
  | @newline last hlast =>
      have hshape : Shape before [last] cr _ _ _ := shape_of_newline hcr hlast
      refine ⟨_, _, _, hshape, ?_⟩
      rw [hshape.remains]
      exact shape_of_newline hcr isEmptyText_nil
  | finish =>
      rcases hcr with rfl | rfl
      · exact ⟨_, _, _, shape_of_finish,
          shape_of_newline (Or.inl rfl) isEmptyText_nil⟩
      · exact hsame rfl shape_of_finish_cr

-- ==================================================== out again, and back

theorem mem_remains (hline : line ∈ remains cr after) :
    line ∈ after ∨ line = cr ∨ line = [] := by
  unfold remains at hline
  split at hline
  next => exact Or.inl hline
  next =>
    split at hline
    next =>
      split at hline
      next => exact Or.inr (Or.inr (List.mem_singleton.mp hline))
      next => cases hline
    next =>
      split at hline
      next =>
        rcases List.mem_append.mp hline with hl | hl
        · rcases mem_withBlank hl with hl | rfl
          · exact Or.inl (List.dropLast_subset _ hl)
          · exact Or.inr (Or.inl rfl)
        · exact Or.inr (Or.inr (List.mem_singleton.mp hl))
      next =>
        rcases mem_withBlank hline with hl | rfl
        · exact Or.inl hl
        · exact Or.inr (Or.inl rfl)

/-- What lies around a section was there before, or is a blank line. -/
theorem mem_around (hcr : IsCr cr) (hline : line ∈ withBlank pre cr ++ remains cr after) :
    line ∈ pre ++ after ∨ IsCr line := by
  rcases List.mem_append.mp hline with hl | hl
  · rcases mem_withBlank hl with hl | rfl
    · exact Or.inl (List.mem_append_left _ hl)
    · exact Or.inr hcr
  · rcases mem_remains hl with hl | rfl | rfl
    · exact Or.inl (List.mem_append_right _ hl)
    · exact Or.inr hcr
    · exact Or.inr (Or.inl rfl)

theorem remains_head (hline : reHead line = true) :
    ∃ more, remains cr (line :: rest) = line :: more := by
  unfold remains
  rw [if_neg (List.cons_ne_nil _ _)]
  split
  next => exact ⟨rest, rfl⟩
  next =>
    split
    next hlast =>
      obtain ⟨t, last, ht, -⟩ := exists_tail_of_newline hline hlast
      rw [ht, List.dropLast_concat]
      obtain ⟨more, hmore⟩ := head_withBlank line t cr
      rw [hmore]
      exact ⟨more ++ [[]], rfl⟩
    next => exact head_withBlank line rest cr

theorem reference_of_line (hline : endsSection line = true) :
    referenceLine pre (line :: rest) = line := by
  have hnot := not_isEmptyText_of_endsSection hline
  exact if_pos (by rw [hnot]; rfl)

theorem reference_of_newline {last : Text} (hlast : isEmptyText last = true) :
    referenceLine pre [last] = pre.getLast?.getD [] :=
  if_neg (by rw [hlast]; decide)

/-- What is left goes to the same place, with the same line ending. -/
theorem place_remains (hplace : Place pre after)
    (hcr : cr = crOf (referenceLine pre after)) :
    Place (withBlank pre cr) (remains cr after)
      ∧ crOf (referenceLine (withBlank pre cr) (remains cr after)) = cr := by
  have hisCr : IsCr cr := hcr ▸ isCr_crOf _
  have hblank : ∀ {p : Text → Prop}, p cr → (∀ l ∈ pre, p l) →
      ∀ l ∈ withBlank pre cr, p l := by
    intro p hp hpre l hl
    rcases mem_withBlank hl with hl | rfl
    · exact hpre l hl
    · exact hp
  have hneutral := hisCr.neutral.endsSection
  cases hplace with
  | @head rest line hline hpre =>
      obtain ⟨more, hmore⟩ : ∃ more, remains cr (line :: rest) = line :: more :=
        remains_head hline
      have hends : endsSection line = true := by rw [endsSection, hline]; rfl
      rw [hmore, reference_of_line hends]
      rw [reference_of_line hends] at hcr
      exact ⟨.head hline (hblank hisCr.neutral.noHead hpre), hcr.symm⟩
  | @definition rest line hline hpre hafter =>
      have hsame : remains cr (line :: rest) = line :: rest :=
        if_pos (by simp [hline])
      have hends : endsSection line = true := by
        rw [endsSection, hline, Bool.or_true]
      rw [hsame, reference_of_line hends]
      rw [reference_of_line hends] at hcr
      exact ⟨.definition hline (hblank hneutral hpre) hafter, hcr.symm⟩
  | @newline last hpre hlast =>
      have hshape : Shape pre [last] cr [] [[]] cr :=
        shape_of_newline hisCr hlast
      rw [hshape.remains, List.nil_append, reference_of_newline isEmptyText_nil]
      rw [reference_of_newline hlast] at hcr
      exact ⟨.newline (hblank hneutral hpre) isEmptyText_nil,
        crOf_withBlank hcr⟩
  | finish hpre hlast =>
      have hcr' : crOf ((withBlank pre cr).getLast?.getD []) = cr :=
        crOf_withBlank hcr
      rcases hisCr with rfl | rfl
      · have hsame : remains [] [] = [[]] := rfl
        rw [hsame, reference_of_newline isEmptyText_nil]
        exact ⟨.newline (hblank hneutral hpre) isEmptyText_nil, hcr'⟩
      · have hsame : remains ['\r'] [] = [] := rfl
        rw [hsame]
        refine ⟨.finish (hblank hneutral hpre) ?_, hcr'⟩
        unfold withBlank
        split
        · rw [List.getLast?_concat, Option.any_some, isEmptyText_cr]
        · exact hlast

theorem insertionOf_remains (hplace : Place pre after)
    (hcr : cr = crOf (referenceLine pre after)) :
    insertionOf (withBlank pre cr ++ remains cr after)
      = ⟨withBlank pre cr, cr, remains cr after⟩ := by
  have hisCr : IsCr cr := hcr ▸ isCr_crOf _
  obtain ⟨hagain, hcrAgain⟩ := place_remains hplace hcr
  rw [insertionOf_place hagain, hcrAgain, withBlank_withBlank hisCr]

/-- Taking section and definition out again leaves the lines. -/
theorem keepLines_render {kept fin sectionLines body : List Text}
    {ending heading : Text} (hshape : Shape before after cr kept fin ending)
    (hcr : IsCr cr) (hdropped : hash ∈ dropped)
    (hbefore : ∀ l ∈ before, Keeps dropped l)
    (hremains : ∀ l ∈ remains cr after, Keeps dropped l)
    (hsection : sectionLines.map (· ++ cr) = heading :: body)
    (hlast : needsBlank (sectionLines.map (· ++ cr)) = true)
    (hheading : reHashHead heading = some hash)
    (hbody : ∀ l ∈ body, endsSection l = false)
    (hdef : ∀ cr, reDefHash (definition ++ cr) = some hash
      ∧ reLinkDef (definition ++ cr) = true) :
    keepLines dropped false (render ⟨before, cr, after⟩ sectionLines definition)
      = before ++ remains cr after := by
  obtain ⟨hdefHash, hlinkDef⟩ := hdef ending
  have hnoHead : reHashHead (definition ++ ending) = none := by
    cases hhead : reHashHead (definition ++ ending) with
    | none => rfl
    | some hash =>
        rw [not_linkDef_of_head (reHead_of_hash hhead)] at hlinkDef
        cases hlinkDef
  rw [hshape.remains] at hremains ⊢
  have hkept : ∀ l ∈ kept, Keeps dropped l :=
    fun l hl => hremains l (List.mem_append_left _ hl)
  have hfin : ∀ l ∈ fin, Keeps dropped l :=
    fun l hl => hremains l (List.mem_append_right _ hl)
  have hsectionEnd : ∀ l ∈ (kept ++ (definition ++ ending) :: fin).head?,
      endsSection l = true := by
    intro l hl
    unfold endsSection
    cases kept with
    | nil =>
        cases hl
        rw [hlinkDef, Bool.or_true]
    | cons k kept =>
        cases hl
        rw [hshape.head _ rfl, Bool.true_or]
  have hskipped : ∀ l ∈ body ++ [cr], endsSection l = false := by
    intro l hl
    rcases List.mem_append.mp hl with hl | hl
    · exact hbody l hl
    · rw [List.mem_singleton.mp hl]
      exact hcr.neutral.endsSection
  have hlines : before ++ (heading :: body)
        ++ cr :: (kept ++ (definition ++ ending) :: fin)
      = before ++ (heading :: (body ++ [cr])
        ++ (kept ++ (definition ++ ending) :: fin)) := by
    simp
  rw [hshape.render _ _ hlast, hsection, hlines, keepLines_append hbefore,
    keepLines_section hheading hdropped hskipped hsectionEnd,
    keepLines_append hkept, keepLines_definition hnoHead hdefHash hdropped]
  have hfinish : keepLines dropped false (fin ++ [])
      = fin ++ keepLines dropped false [] := keepLines_append hfin
  rw [List.append_nil, keepLines, List.append_nil] at hfinish
  rw [hfinish]

end Culture

end RestifyCapl.Ci
