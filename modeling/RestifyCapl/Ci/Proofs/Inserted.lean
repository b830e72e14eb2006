/-
What `Get-GeneratedText` inserts. The same edit with the origin of each line
(`renderWritten`) says which lines of the result were there before: all of
them, in order, and no link definition stands between the section and its
definition. The final newline and the line endings do not always come out
as the help of the script says; `OnlyInserts` holds of a text exactly when
`Undisturbed` does (`generated_only_inserts_iff`).
-/
import RestifyCapl.Ci.Proofs.Published

namespace RestifyCapl.Ci

variable {before after pre ls sectionLines : List Text}
variable {cr definition line : Text}

-- =============================================================== the origins

/-- A line of the result: one of the file, or an inserted one and the line
ending it takes. -/
inductive Written where
  | kept (line : Text)
  | blank (cr : Text)
  | sectionLine (line cr : Text)
  | definition (line cr : Text)
deriving DecidableEq

def Written.text : Written → Text
  | .kept line => line
  | .blank cr => cr
  | .sectionLine line cr => line ++ cr
  | .definition line cr => line ++ cr

def Written.isKept : Written → Option Text
  | .kept line => some line
  | _ => none

def Written.isSection : Written → Option Text
  | .sectionLine line _ => some line
  | _ => none

def Written.isDefinition : Written → Option Text
  | .definition line _ => some line
  | _ => none

/-- What is left when all that was inserted is deleted. -/
def keptOf (out : List Written) : List Text := out.filterMap Written.isKept

/-- `withBlank`, of lines with their origin. -/
def blankAfter (out : List Written) (cr : Text) : List Written :=
  if needsBlank (out.map Written.text) then out ++ [.blank cr] else out

/-- A definition at the end. A last element that is taken for the empty one
is removed, and an empty one put back after the definition: the same one, if
it is empty. -/
def finishWritten [Culture] (out : List Written) (cr definition : Text) : List Written :=
  match out.getLast? with
  | some last =>
      if isEmptyText last.text then
        blankAfter out.dropLast cr
          ++ [.definition definition cr, if last.text = [] then last else .blank []]
      else blankAfter out cr ++ [.definition definition []]
  | none => blankAfter out cr ++ [.definition definition []]

/-- The lines of `render`, with their origin. -/
def renderWritten [Culture] (before after : List Text) (cr : Text)
    (sectionLines : List Text) (definition : Text) : List Written :=
  let out := blankAfter (before.map Written.kept) cr
    ++ sectionLines.map (Written.sectionLine · cr) ++ [Written.blank cr]
  match after.dropWhile fun line => !reLinkDef line with
  | next :: rest =>
      out ++ (after.takeWhile fun line => !reLinkDef line).map Written.kept
        ++ .definition definition cr :: (next :: rest).map Written.kept
  | [] => finishWritten (out ++ after.map Written.kept) cr definition

theorem map_text_kept (ls : List Text) :
    (ls.map Written.kept).map Written.text = ls := by
  rw [List.map_map]
  exact List.map_id ls

theorem map_text_section (ls : List Text) (cr : Text) :
    (ls.map (Written.sectionLine · cr)).map Written.text = ls.map (· ++ cr) := by
  rw [List.map_map]
  rfl

theorem map_text_blankAfter (out : List Written) (cr : Text) :
    (blankAfter out cr).map Written.text = withBlank (out.map Written.text) cr := by
  unfold blankAfter withBlank
  split
  · rw [List.map_append]
    rfl
  · rfl

section Culture

variable [Culture]

theorem finishWritten_of_empty (out : List Written) {last : Written}
    (hlast : isEmptyText last.text = true) (cr definition : Text) :
    finishWritten (out ++ [last]) cr definition
      = blankAfter out cr
        ++ [.definition definition cr,
          if last.text = [] then last else .blank []] := by
  unfold finishWritten
  rw [List.getLast?_concat, List.dropLast_concat]
  exact if_pos hlast

theorem finishWritten_of_newline (out : List Written) {last : Written}
    (hlast : last.text = []) (cr definition : Text) :
    finishWritten (out ++ [last]) cr definition
      = blankAfter out cr ++ [.definition definition cr, last] := by
  rw [finishWritten_of_empty out (by rw [hlast, isEmptyText_nil]), if_pos hlast]

theorem finishWritten_of_line (out : List Written) {last : Written}
    (hlast : isEmptyText last.text = false) (cr definition : Text) :
    finishWritten (out ++ [last]) cr definition
      = blankAfter (out ++ [last]) cr ++ [.definition definition []] := by
  unfold finishWritten
  rw [List.getLast?_concat]
  exact if_neg (Bool.eq_false_iff.mp hlast)

theorem map_text_finishWritten (out : List Written) (last : Written)
    (cr definition : Text) :
    (finishWritten (out ++ [last]) cr definition).map Written.text =
      if ((out ++ [last]).map Written.text).getLast?.any isEmptyText then
        withBlank ((out ++ [last]).map Written.text).dropLast cr
          ++ [definition ++ cr, []]
      else withBlank ((out ++ [last]).map Written.text) cr ++ [definition] := by
  have htext : (out ++ [last]).map Written.text
      = out.map Written.text ++ [last.text] := List.map_append
  rw [htext, List.getLast?_concat, List.dropLast_concat, Option.any_some]
  by_cases hlast : isEmptyText last.text = true
  · have hempty :
        (if last.text = [] then last else Written.blank []).text = [] := by
      split
      next hnil => exact hnil
      next => rfl
    rw [finishWritten_of_empty out hlast, List.map_append, map_text_blankAfter,
      if_pos hlast]
    show _ ++ [definition ++ cr, _] = _
    rw [hempty]
  · rw [finishWritten_of_line out (Bool.eq_false_iff.mpr hlast), List.map_append,
      map_text_blankAfter, htext, if_neg hlast]
    show _ ++ [definition ++ []] = _
    rw [List.append_nil]

/-- Without the origins these are the lines of `render`. -/
theorem map_text_renderWritten (before after : List Text) (cr : Text)
    (sectionLines : List Text) (definition : Text) :
    (renderWritten before after cr sectionLines definition).map Written.text
      = render ⟨withBlank before cr, cr, after⟩ sectionLines definition := by
  have hout : (blankAfter (before.map Written.kept) cr
        ++ sectionLines.map (Written.sectionLine · cr) ++ [Written.blank cr]).map
          Written.text
      = withBlank before cr ++ sectionLines.map (· ++ cr) ++ [cr] := by
    rw [List.map_append, List.map_append, map_text_blankAfter, map_text_kept,
      map_text_section]
    rfl
  unfold renderWritten render
  dsimp only
  cases hdrop : after.dropWhile fun line => !reLinkDef line with
  | cons next rest =>
      dsimp only
      rw [List.map_append, List.map_append, hout, map_text_kept, List.map_cons,
        map_text_kept]
      rfl
  | nil =>
      dsimp only
      obtain ⟨init, last, hsnoc⟩ : ∃ init last,
          blankAfter (before.map Written.kept) cr
              ++ sectionLines.map (Written.sectionLine · cr) ++ [Written.blank cr]
              ++ after.map Written.kept = init ++ [last] := by
        rcases List.eq_nil_or_concat' after with rfl | ⟨init, last, rfl⟩
        · exact ⟨_, _, List.append_nil _⟩
        · exact ⟨_, .kept last, by rw [List.map_append, ← List.append_assoc]; rfl⟩
      have htext : withBlank before cr ++ sectionLines.map (· ++ cr) ++ [cr] ++ after
          = (init ++ [last]).map Written.text := by
        rw [← hsnoc, List.map_append, hout, map_text_kept]
      rw [hsnoc, htext]
      exact map_text_finishWritten init last cr definition

end Culture

@[simp] theorem keptOf_nil : keptOf [] = [] := rfl

theorem keptOf_cons (w : Written) (rest : List Written) :
    keptOf (w :: rest) = w.isKept.toList ++ keptOf rest := by
  cases w <;> rfl

theorem keptOf_append (x y : List Written) :
    keptOf (x ++ y) = keptOf x ++ keptOf y := List.filterMap_append

theorem keptOf_kept (ls : List Text) : keptOf (ls.map Written.kept) = ls := by
  unfold keptOf
  rw [List.filterMap_map]
  exact List.filterMap_some

theorem keptOf_section (ls : List Text) (cr : Text) :
    keptOf (ls.map (Written.sectionLine · cr)) = [] := by
  unfold keptOf
  rw [List.filterMap_map, List.filterMap_eq_nil_iff]
  exact fun _ _ => rfl

theorem keptOf_blankAfter (out : List Written) (cr : Text) :
    keptOf (blankAfter out cr) = keptOf out := by
  unfold blankAfter
  split
  · rw [keptOf_append]
    exact List.append_nil _
  · rfl

-- ============================================================ what follows

/-- The lines after the section and its blank line, by what follows the
place. -/
inductive Tail (cr definition : Text) : List Text → List Written → Prop where
  | definition {t₁ t₂ : List Text} {line : Text}
      (ht₁ : ∀ l ∈ t₁, reLinkDef l = false) (hline : reLinkDef line = true) :
      Tail cr definition (t₁ ++ line :: t₂)
        (t₁.map Written.kept
          ++ .definition definition cr :: (line :: t₂).map Written.kept)
  | newline {ls : List Text} (hnone : ∀ l ∈ ls, reLinkDef l = false) :
      Tail cr definition (ls ++ [[]])
        (blankAfter (ls.map Written.kept) cr
          ++ [.definition definition cr, .kept []])
  | finish {ls : List Text} (hne : ls ≠ [])
      (hnone : ∀ l ∈ ls, reLinkDef l = false) (hlast : ls.getLast? ≠ some []) :
      Tail cr definition ls
        (blankAfter (ls.map Written.kept) cr ++ [.definition definition []])
  | extra (hcr : cr = []) :
      Tail cr definition [] [.definition definition [], .blank []]
  | done (hcr : cr = ['\r']) : Tail cr definition [] [.definition definition []]

theorem blankAfter_append {x y : List Written} (hne : y ≠ []) (cr : Text) :
    blankAfter (x ++ y) cr = x ++ blankAfter y cr := by
  unfold blankAfter
  rw [List.map_append, needsBlank_append (by simpa using hne)]
  split
  · rw [List.append_assoc]
  · rfl

theorem blankAfter_of_not (out : List Written) (cr : Text)
    (h : needsBlank (out.map Written.text) = false) : blankAfter out cr = out :=
  if_neg (by rw [h]; decide)

/-- No blank line goes after a blank one. -/
theorem blankAfter_blank (hcr : IsCr cr) (out : List Written) :
    blankAfter (out ++ [.blank cr]) cr = out ++ [.blank cr] := by
  apply blankAfter_of_not
  rw [List.map_append, List.map_singleton, needsBlank_snoc]
  show (!reBlank cr) = false
  rw [hcr.blank, Bool.not_true]

section Culture

variable [Culture]

theorem renderWritten_of_none (hnone : ∀ l ∈ after, reLinkDef l = false)
    (before : List Text) (cr : Text) (sectionLines : List Text)
    (definition : Text) :
    renderWritten before after cr sectionLines definition
      = finishWritten (blankAfter (before.map Written.kept) cr
          ++ sectionLines.map (Written.sectionLine · cr) ++ [Written.blank cr]
          ++ after.map Written.kept) cr definition := by
  have hdrop : after.dropWhile (fun line => !reLinkDef line) = [] := by
    rw [List.dropWhile_eq_nil_iff]
    intro l hl
    simp [hnone l hl]
  unfold renderWritten
  rw [hdrop]

/-- The definition goes before the first one of the file. -/
theorem renderWritten_of_definition {t₁ t₂ : List Text}
    (ht₁ : ∀ l ∈ t₁, reLinkDef l = false) (hline : reLinkDef line = true)
    (before : List Text) (cr : Text) (sectionLines : List Text) (definition : Text) :
    renderWritten before (t₁ ++ line :: t₂) cr sectionLines definition
      = blankAfter (before.map Written.kept) cr
        ++ (sectionLines.map (Written.sectionLine · cr) ++ Written.blank cr
          :: (t₁.map Written.kept
            ++ .definition definition cr :: (line :: t₂).map Written.kept)) := by
  have hpos : ∀ l ∈ t₁, (!reLinkDef l) = true := fun l hl => by simp [ht₁ l hl]
  unfold renderWritten
  dsimp only
  rw [List.dropWhile_append_of_pos hpos, List.takeWhile_append_of_pos hpos,
    List.dropWhile_cons_of_neg (by simp [hline]),
    List.takeWhile_cons_of_neg (by simp [hline])]
  simp

/-- Without one it goes before the final newline. -/
theorem renderWritten_of_newline (hnone : ∀ l ∈ ls ++ [[]], reLinkDef l = false)
    (before : List Text) (cr : Text) (sectionLines : List Text) (definition : Text) :
    renderWritten before (ls ++ [[]]) cr sectionLines definition
      = blankAfter (blankAfter (before.map Written.kept) cr
          ++ sectionLines.map (Written.sectionLine · cr) ++ [Written.blank cr]
          ++ ls.map Written.kept) cr ++ [.definition definition cr, .kept []] := by
  rw [renderWritten_of_none hnone, List.map_append, ← List.append_assoc]
  exact finishWritten_of_newline _ rfl cr definition

/-- Without a final newline it goes to the end. -/
theorem renderWritten_of_finish (hne : ls ≠ [])
    (hnone : ∀ l ∈ ls, reLinkDef l = false)
    (hlast : ls.getLast?.any isEmptyText = false)
    (before : List Text) (cr : Text) (sectionLines : List Text) (definition : Text) :
    renderWritten before ls cr sectionLines definition
      = blankAfter (before.map Written.kept) cr
        ++ (sectionLines.map (Written.sectionLine · cr) ++ Written.blank cr
          :: (blankAfter (ls.map Written.kept) cr ++ [.definition definition []])) := by
  obtain ⟨init, last, hsnoc⟩ := (List.eq_nil_or_concat' ls).resolve_left hne
  rw [renderWritten_of_none hnone]
  rw [hsnoc, List.getLast?_concat, Option.any_some] at hlast
  have htext : isEmptyText (Written.kept last).text = false := hlast
  rw [hsnoc, List.map_append, ← List.append_assoc, List.map_singleton,
    finishWritten_of_line _ htext, List.append_assoc _ _ [_],
    blankAfter_append (by simp)]
  simp

/-- A section at the end of the file is its last part, and an empty line is
put behind it again unless a carriage return stands there. -/
theorem exists_tail_of_nil (hcr : IsCr cr)
    (hsection : needsBlank (sectionLines.map (· ++ cr)) = true) (before : List Text)
    (definition : Text) :
    ∃ tail, Tail cr definition [] tail
      ∧ renderWritten before [] cr sectionLines definition
        = blankAfter (before.map Written.kept) cr
          ++ (sectionLines.map (Written.sectionLine · cr)
            ++ Written.blank cr :: tail) := by
  have hnone : ∀ l ∈ ([] : List Text), reLinkDef l = false := List.forall_mem_nil _
  rw [renderWritten_of_none hnone, List.map_nil, List.append_nil]
  rcases hcr with rfl | rfl
  · have hblank : blankAfter (sectionLines.map (Written.sectionLine · [])) []
        = sectionLines.map (Written.sectionLine · []) ++ [.blank []] := by
      unfold blankAfter
      rw [map_text_section, if_pos hsection]
    have hne : sectionLines.map (Written.sectionLine · []) ≠ [] := by
      intro hnil
      rw [List.map_eq_nil_iff.mp hnil] at hsection
      cases hsection
    refine ⟨_, .extra rfl, ?_⟩
    rw [finishWritten_of_newline _ rfl, blankAfter_append hne, hblank]
    simp
  · refine ⟨_, .done rfl, ?_⟩
    have hlast : isEmptyText (Written.blank ['\r']).text = false := isEmptyText_cr
    rw [finishWritten_of_line _ hlast, blankAfter_blank (Or.inr rfl)]
    simp

/-- Only the empty line is taken for it, if it is the last one. -/
def LastCounts (ls : List Text) : Prop :=
  ∀ last ∈ ls.getLast?, isEmptyText last = true → last = []

theorem lastCounts_concat {last : Text} :
    LastCounts (ls ++ [last]) ↔ (isEmptyText last = true → last = []) := by
  unfold LastCounts
  rw [List.getLast?_concat]
  simp

theorem lastCounts_append (hne : after ≠ []) :
    LastCounts (pre ++ after) ↔ LastCounts after := by
  unfold LastCounts
  rw [List.getLast?_append_of_ne_nil _ hne]

theorem getLast_ne_nil (h : ls.getLast?.any isEmptyText = false) :
    ls.getLast? ≠ some [] := by
  intro hlast
  rw [hlast, Option.any_some, isEmptyText_nil] at h
  cases h

/-- The file before the section, the section between blank lines, and what
follows, if no line is taken for the empty one. -/
theorem exists_tail (hafter : Following after)
    (hcounts : (∀ l ∈ after, reLinkDef l = false) → LastCounts after)
    (hcr : IsCr cr)
    (hsection : needsBlank (sectionLines.map (· ++ cr)) = true) (before : List Text)
    (definition : Text) :
    ∃ tail, Tail cr definition after tail
      ∧ renderWritten before after cr sectionLines definition
        = blankAfter (before.map Written.kept) cr
          ++ (sectionLines.map (Written.sectionLine · cr)
            ++ Written.blank cr :: tail) := by
  cases hafter with
  | definition ht₁ hline hhead =>
      exact ⟨_, .definition ht₁ hline, renderWritten_of_definition ht₁ hline ..⟩
  | @headNewline t line last hline hnone hlast =>
      have hall : ∀ l ∈ line :: t ++ [last], reLinkDef l = false := by
        rw [List.forall_mem_append, List.forall_mem_singleton]
        exact ⟨hnone, (endsSection_false.mp (endsSection_of_isEmptyText hlast)).2⟩
      obtain rfl := lastCounts_concat.mp (hcounts hall) hlast
      refine ⟨_, .newline hnone, ?_⟩
      rw [renderWritten_of_newline hall, blankAfter_append (by simp)]
      simp
  | @headFinish t line hline hnone hlast =>
      have hne := List.cons_ne_nil line t
      exact ⟨_, .finish hne hnone (getLast_ne_nil hlast),
        renderWritten_of_finish hne hnone hlast ..⟩
  | @newline last hlast =>
      have hall : ∀ l ∈ [] ++ [last], reLinkDef l = false := by
        rw [List.nil_append, List.forall_mem_singleton]
        exact (endsSection_false.mp (endsSection_of_isEmptyText hlast)).2
      obtain rfl := hcounts hall last rfl hlast
      have hempty := renderWritten_of_newline hall before cr sectionLines definition
      rw [List.map_nil, List.append_nil, blankAfter_blank hcr, List.nil_append] at hempty
      refine ⟨_, .newline (List.forall_mem_nil _), ?_⟩
      rw [List.map_nil, blankAfter_of_not [] cr rfl, hempty]
      simp
  | finish => exact exists_tail_of_nil hcr hsection before definition

/-- A last line that is taken for the empty one is lost. -/
theorem kept_of_lost {last : Text}
    (hnone : ∀ l ∈ ls ++ [last], reLinkDef l = false)
    (hlast : isEmptyText last = true) (hne : last ≠ []) (before : List Text)
    (cr : Text) (sectionLines : List Text) (definition : Text) :
    keptOf (renderWritten before (ls ++ [last]) cr sectionLines definition)
      = before ++ ls := by
  have hempty : isEmptyText (Written.kept last).text = true := hlast
  have hnot : ¬ (Written.kept last).text = [] := hne
  rw [renderWritten_of_none hnone, List.map_append, ← List.append_assoc,
    List.map_singleton, finishWritten_of_empty _ hempty, if_neg hnot]
  simp [keptOf_append, keptOf_blankAfter, keptOf_kept, keptOf_section, keptOf_cons,
    Written.isKept]

-- ================================================================= endings

/-- A definition that goes to the end of the file. -/
def AtEnd (after : List Text) : Prop := after = [] ∨ after = [[]]

/-- An inserted line has the ending of the line it sits next to, as
`$reference` is chosen: the line of the file at its place or, at the end,
the one before. A final definition need not. -/
def Written.FitsAt (before after : List Text) : Written → Prop
  | .kept _ => True
  | .blank cr => cr = crOf (referenceLine before after)
  | .sectionLine _ cr => cr = crOf (referenceLine before after)
  | .definition _ cr => AtEnd after ∨ cr = crOf (referenceLine before after)

/-- All inserted lines fit, between the lines of the file `before` and
`after`. -/
def EndingsFit : List Text → List Written → List Text → Prop
  | _, [], _ => True
  | before, w :: rest, after =>
      w.FitsAt before (keptOf rest ++ after)
        ∧ EndingsFit (before ++ w.isKept.toList) rest after

theorem endingsFit_cons {w : Written} {rest : List Written} :
    EndingsFit before (w :: rest) after
      ↔ w.FitsAt before (keptOf rest ++ after)
        ∧ EndingsFit (before ++ w.isKept.toList) rest after := Iff.rfl

theorem endingsFit_append {x y : List Written} :
    EndingsFit before (x ++ y) after
      ↔ EndingsFit before x (keptOf y ++ after)
        ∧ EndingsFit (before ++ keptOf x) y after := by
  induction x generalizing before with
  | nil =>
      rw [List.nil_append, keptOf_nil, List.append_nil]
      exact (iff_of_eq (true_and _)).symm
  | cons w x ih =>
      rw [List.cons_append, endingsFit_cons, endingsFit_cons, ih, keptOf_cons,
        keptOf_append, List.append_assoc, List.append_assoc, and_assoc]

theorem endingsFit_kept (ls : List Text) :
    EndingsFit before (ls.map Written.kept) after := by
  induction ls generalizing before with
  | nil => exact trivial
  | cons line ls ih => exact ⟨trivial, ih⟩

theorem endingsFit_section (ls : List Text)
    (hcr : cr = crOf (referenceLine before after)) :
    EndingsFit before (ls.map (Written.sectionLine · cr)) after := by
  induction ls with
  | nil => exact trivial
  | cons line ls ih =>
      refine ⟨?_, ?_⟩
      · show cr = crOf (referenceLine before (keptOf (ls.map _) ++ after))
        rw [keptOf_section]
        exact hcr
      · show EndingsFit (before ++ []) _ after
        rw [List.append_nil]
        exact ih

theorem endingsFit_singleton {w : Written} :
    EndingsFit before [w] after ↔ w.FitsAt before after := iff_of_eq (and_true _)

/-- A blank line that is needed after kept lines. -/
theorem endingsFit_blankAfter (ls : List Text) :
    EndingsFit before (blankAfter (ls.map Written.kept) cr) after
      ↔ (needsBlank ls = true → cr = crOf (referenceLine (before ++ ls) after)) := by
  unfold blankAfter
  rw [map_text_kept]
  by_cases hneeds : needsBlank ls = true
  · rw [if_pos hneeds, endingsFit_append, keptOf_kept, endingsFit_singleton]
    exact ⟨fun h _ => h.2, fun h => ⟨endingsFit_kept ls, h hneeds⟩⟩
  · rw [if_neg hneeds]
    exact ⟨fun _ h => absurd h hneeds, fun _ => endingsFit_kept ls⟩

-- =========================================================== the condition

/-- The lines without the empty element after a final newline. -/
def withoutLast (ls : List Text) : List Text :=
  if ls.getLast? = some [] then ls.dropLast else ls

/-- The lines from the first heading on. -/
def fromHead (ls : List Text) : List Text := ls.dropWhile fun line => !reHead line

/-- A file whose final newline and line endings come out as they were: it
does not end in a line without any ending when it has neither heading nor
link definition, and where lines are put among those from the first heading
on, they have the ending of that heading. And where no link definition
follows, the last line is not taken for the empty one. -/
structure Undisturbed (ls : List Text) : Prop where
  newline : (∀ line ∈ ls, endsSection line = false) → ls.getLast? ≠ some [] →
    ∀ last ∈ ls.getLast?, crOf last = ['\r']
  definition : ∀ head ∈ (fromHead ls).head?, ∀ next ∈ (fromHead ls).find? reLinkDef,
    crOf next = crOf head
  blank : ∀ head ∈ (fromHead ls).head?, (∀ line ∈ fromHead ls, reLinkDef line = false) →
    ∀ last ∈ (withoutLast (fromHead ls)).getLast?, reBlank last = false →
      crOf last = crOf head
  last : (∀ line ∈ ls, endsSection line = false) → LastCounts ls
  lastFrom : (∀ line ∈ fromHead ls, reLinkDef line = false) →
    LastCounts (fromHead ls)

/-- The same about what follows the place. -/
structure UndisturbedAfter (cr : Text) (after : List Text) : Prop where
  newline : after = [] → cr = ['\r']
  definition : ∀ next ∈ after.find? reLinkDef, crOf next = cr
  blank : (∀ line ∈ after, reLinkDef line = false) →
    ∀ last ∈ (withoutLast after).getLast?, reBlank last = false → crOf last = cr
  last : (∀ line ∈ after, reLinkDef line = false) → LastCounts after

omit [Culture] in
theorem fromHead_of_none (h : ∀ line ∈ ls, reHead line = false) : fromHead ls = [] := by
  unfold fromHead
  rw [List.dropWhile_eq_nil_iff]
  intro line hline
  rw [h line hline]
  rfl

omit [Culture] in
theorem fromHead_of_place {rest : List Text} (hline : reHead line = true)
    (hpre : ∀ l ∈ pre, reHead l = false) :
    fromHead (pre ++ line :: rest) = line :: rest := by
  unfold fromHead
  rw [List.dropWhile_append_of_pos (fun l hl => by rw [hpre l hl]; rfl),
    List.dropWhile_cons_of_neg (by rw [hline]; decide)]

theorem undisturbed_of_noHead (h : ∀ line ∈ ls, reHead line = false) :
    Undisturbed ls ↔ ((∀ line ∈ ls, endsSection line = false) →
      (ls.getLast? ≠ some [] → ∀ last ∈ ls.getLast?, crOf last = ['\r'])
        ∧ LastCounts ls) := by
  refine ⟨fun hls hnone => ⟨hls.newline hnone, hls.last hnone⟩, fun hends =>
    ⟨fun hnone => (hends hnone).1, ?_, ?_, fun hnone => (hends hnone).2, ?_⟩⟩
  · intro head hhead
    rw [fromHead_of_none h] at hhead
    cases hhead
  · intro head hhead
    rw [fromHead_of_none h] at hhead
    cases hhead
  · intro _ last hlast
    rw [fromHead_of_none h] at hlast
    cases hlast

theorem undisturbed_head {rest : List Text} (hline : reHead line = true)
    (hpre : ∀ l ∈ pre, reHead l = false) :
    Undisturbed (pre ++ line :: rest) ↔ UndisturbedAfter (crOf line) (line :: rest) := by
  have hends : endsSection line = true := by rw [endsSection, hline, Bool.true_or]
  have hfrom : fromHead (pre ++ line :: rest) = line :: rest :=
    fromHead_of_place hline hpre
  constructor
  · rintro ⟨-, hdef, hblank, -, hlast⟩
    rw [hfrom] at hdef hblank hlast
    exact ⟨fun hnil => absurd hnil (List.cons_ne_nil _ _), hdef line rfl,
      hblank line rfl, hlast⟩
  · rintro ⟨-, hdef, hblank, hlast⟩
    have hhead : ¬ ∀ l ∈ pre ++ line :: rest, endsSection l = false := by
      intro hnone
      have := hnone line (by simp)
      rw [hends] at this
      cases this
    refine ⟨fun hnone => absurd hnone hhead, ?_, ?_,
      fun hnone => absurd hnone hhead, ?_⟩
    · rw [hfrom]
      rintro head ⟨⟩
      exact hdef
    · rw [hfrom]
      rintro head ⟨⟩
      exact hblank
    · rw [hfrom]
      exact hlast

/-- Without a heading the section goes before the definition, with its
ending. -/
theorem undisturbed_definition {rest : List Text} (hline : reLinkDef line = true)
    (hpre : ∀ l ∈ pre, endsSection l = false)
    (hafter : ∀ l ∈ line :: rest, reHead l = false) :
    Undisturbed (pre ++ line :: rest) ↔ UndisturbedAfter (crOf line) (line :: rest) := by
  have hends : endsSection line = true := by rw [endsSection, hline, Bool.or_true]
  have hheads : ∀ l ∈ pre ++ line :: rest, reHead l = false := by
    intro l hl
    rcases List.mem_append.mp hl with hl | hl
    · exact (endsSection_false.mp (hpre l hl)).1
    · exact hafter l hl
  rw [undisturbed_of_noHead hheads]
  have hdefined : ¬ ∀ l ∈ line :: rest, reLinkDef l = false := by
    intro hnone
    have := hnone line List.mem_cons_self
    rw [hline] at this
    cases this
  refine iff_of_true ?_ ⟨fun hnil => absurd hnil (List.cons_ne_nil _ _), ?_,
    fun hnone => absurd hnone hdefined, fun hnone => absurd hnone hdefined⟩
  · intro hnone
    have := hnone line (by simp)
    rw [hends] at this
    cases this
  · rw [List.find?_cons_of_pos hline]
    rintro next ⟨⟩
    rfl

theorem undisturbed_newline {last : Text}
    (hpre : ∀ l ∈ pre, endsSection l = false) (hlast : isEmptyText last = true)
    (cr : Text) : Undisturbed (pre ++ [last]) ↔ UndisturbedAfter cr [last] := by
  have hends : ∀ l ∈ pre ++ [last], endsSection l = false := by
    rw [List.forall_mem_append, List.forall_mem_singleton]
    exact ⟨hpre, endsSection_of_isEmptyText hlast⟩
  have hnone : ∀ l ∈ [last], reLinkDef l = false := by
    intro l hl
    exact (endsSection_false.mp (hends l (List.mem_append_right _ hl))).2
  rw [undisturbed_of_noHead fun l hl => (endsSection_false.mp (hends l hl)).1]
  constructor
  · intro hls
    have hcounts := (hls hends).2
    obtain rfl := lastCounts_concat.mp hcounts hlast
    refine ⟨fun hnil => absurd hnil (List.cons_ne_nil _ _), ?_, ?_, fun _ => ?_⟩
    · intro next hnext
      cases hnext
    · intro _ last hlast
      cases hlast
    · exact (lastCounts_append (List.cons_ne_nil _ _)).mp hcounts
  · rintro ⟨-, -, -, hcounts⟩ _
    have hcounts := hcounts hnone
    refine ⟨fun hne => ?_, (lastCounts_append (List.cons_ne_nil _ _)).mpr hcounts⟩
    rw [List.getLast?_concat, hcounts last rfl hlast] at hne
    exact absurd rfl hne

/-- A file that ends without a newline gets one, of the kind it has. -/
theorem undisturbed_finish {last : Text}
    (hpre : ∀ l ∈ pre ++ [last], endsSection l = false)
    (hlast : isEmptyText last = false) :
    Undisturbed (pre ++ [last]) ↔ UndisturbedAfter (crOf last) [] := by
  have hends : (pre ++ [last]).getLast? ≠ some [] := by
    apply getLast_ne_nil
    rw [List.getLast?_concat, Option.any_some, hlast]
  rw [undisturbed_of_noHead fun l hl => (endsSection_false.mp (hpre l hl)).1]
  constructor
  · intro hls
    refine ⟨fun _ => (hls hpre).1 hends last List.getLast?_concat, ?_, ?_, ?_⟩
    · intro next hnext
      cases hnext
    · intro _ last hlast
      cases hlast
    · intro _ last hlast
      cases hlast
  · rintro ⟨hnewline, -, -, -⟩ _
    refine ⟨fun _ l hl => ?_, lastCounts_concat.mpr fun hempty => ?_⟩
    · rw [List.getLast?_concat] at hl
      cases hl
      exact hnewline rfl
    · rw [hlast] at hempty
      cases hempty

theorem undisturbed_place (hplace : Place pre after) (hne : pre ++ after ≠ []) :
    Undisturbed (pre ++ after)
      ↔ UndisturbedAfter (crOf (referenceLine pre after)) after := by
  cases hplace with
  | @head rest line hline hpre =>
      have hends : endsSection line = true := by rw [endsSection, hline, Bool.true_or]
      rw [reference_of_line hends]
      exact undisturbed_head hline hpre
  | @definition rest line hline hpre hafter =>
      have hends : endsSection line = true := by rw [endsSection, hline, Bool.or_true]
      rw [reference_of_line hends]
      exact undisturbed_definition hline hpre hafter
  | newline hpre hlast => exact undisturbed_newline hpre hlast _
  | finish hpre hlast =>
      rw [List.append_nil] at hne ⊢
      obtain ⟨init, last, rfl⟩ := (List.eq_nil_or_concat' pre).resolve_left hne
      have hreference : referenceLine (init ++ [last]) [] = last := by
        unfold referenceLine
        rw [List.head?_nil, List.getLast?_concat]
        rfl
      rw [List.getLast?_concat, Option.any_some] at hlast
      rw [hreference]
      exact undisturbed_finish hpre hlast

end Culture

-- ============================================================== the pieces

section tail

variable {tail : List Written}

theorem isSection_blankAfter (ls : List Text) (cr : Text) :
    (blankAfter (ls.map Written.kept) cr).filterMap Written.isSection = [] := by
  unfold blankAfter
  split <;> simp [List.filterMap_map, Function.comp_def, Written.isSection]

theorem isDefinition_blankAfter (ls : List Text) (cr : Text) :
    (blankAfter (ls.map Written.kept) cr).filterMap Written.isDefinition = [] := by
  unfold blankAfter
  split <;> simp [List.filterMap_map, Function.comp_def, Written.isDefinition]

theorem Tail.kept (h : Tail cr definition after tail) : keptOf tail = after := by
  cases h with
  | definition ht₁ hline =>
      rw [keptOf_append, keptOf_kept, keptOf_cons, keptOf_kept]
      rfl
  | newline hnone =>
      rw [keptOf_append, keptOf_blankAfter, keptOf_kept]
      rfl
  | finish hne hnone hlast =>
      rw [keptOf_append, keptOf_blankAfter, keptOf_kept]
      exact List.append_nil _
  | extra => rfl
  | done => rfl

theorem Tail.noSection (h : Tail cr definition after tail) :
    tail.filterMap Written.isSection = [] := by
  cases h with
  | definition ht₁ hline =>
      simp [List.filterMap_map, Function.comp_def, Written.isSection]
  | newline hnone =>
      rw [List.filterMap_append, isSection_blankAfter]
      rfl
  | finish hne hnone hlast =>
      rw [List.filterMap_append, isSection_blankAfter]
      rfl
  | extra => rfl
  | done => rfl

theorem Tail.definitions (h : Tail cr definition after tail) :
    tail.filterMap Written.isDefinition = [definition] := by
  cases h with
  | definition ht₁ hline =>
      simp [List.filterMap_map, Function.comp_def, Written.isDefinition]
  | newline hnone =>
      rw [List.filterMap_append, isDefinition_blankAfter]
      rfl
  | finish hne hnone hlast =>
      rw [List.filterMap_append, isDefinition_blankAfter]
      rfl
  | extra => rfl
  | done => rfl

theorem withoutLast_concat (ls : List Text) : withoutLast (ls ++ [[]]) = ls := by
  unfold withoutLast
  rw [if_pos List.getLast?_concat, List.dropLast_concat]

theorem find_none (h : ∀ l ∈ ls, reLinkDef l = false) : ls.find? reLinkDef = none := by
  rw [List.find?_eq_none]
  intro l hl
  rw [h l hl]
  decide

/-- The blank line after the last line has the ending of this one. -/
theorem blank_fits_iff (before ls : List Text) (cr : Text) :
    (needsBlank ls = true → cr = crOf ((before ++ ls).getLast?.getD []))
      ↔ ∀ last ∈ ls.getLast?, reBlank last = false → crOf last = cr := by
  rcases List.eq_nil_or_concat' ls with rfl | ⟨init, last, rfl⟩
  · exact iff_of_true (fun h => by cases h) nofun
  · rw [needsBlank_snoc, ← List.append_assoc, List.getLast?_concat,
      List.getLast?_concat, Bool.not_eq_true', Option.getD_some]
    constructor
    · rintro h _ ⟨⟩ hblank
      exact (h hblank).symm
    · intro h hblank
      exact (h last rfl hblank).symm

/-- A definition before another one has the ending of that one. -/
theorem endings_of_definition [Culture] {t₁ t₂ : List Text}
    (ht₁ : ∀ l ∈ t₁, reLinkDef l = false) (hline : reLinkDef line = true) :
    EndingsFit before (t₁.map Written.kept
        ++ .definition definition cr :: (line :: t₂).map Written.kept) []
      ↔ ∀ next ∈ (t₁ ++ line :: t₂).find? reLinkDef, crOf next = cr := by
  have hends : endsSection line = true := by rw [endsSection, hline, Bool.or_true]
  have hfind : (t₁ ++ line :: t₂).find? reLinkDef = some line :=
    List.find?_eq_some_iff_append.mpr ⟨hline, t₁, t₂, rfl, by simpa using ht₁⟩
  have hend : ¬ AtEnd (line :: t₂) := by
    rintro (hnil | hnil)
    · cases hnil
    · cases hnil
      cases hline
  rw [endingsFit_append, endingsFit_cons, keptOf_cons, keptOf_kept, keptOf_kept, hfind]
  constructor
  · rintro ⟨-, hfits, -⟩
    rintro next ⟨⟩
    rcases hfits with hatEnd | hcr
    · rw [List.append_nil] at hatEnd
      exact absurd hatEnd hend
    · rw [hcr, List.append_nil, reference_of_line hends]
  · intro hdef
    refine ⟨endingsFit_kept t₁, Or.inr ?_, endingsFit_kept (line :: t₂)⟩
    rw [List.append_nil, reference_of_line hends, hdef line rfl]

/-- The endings of the lines inserted after the section. -/
theorem Tail.endings [Culture] (h : Tail cr definition after tail)
    (hplace : cr = crOf (referenceLine before after)) :
    EndingsFit before tail []
      ↔ (∀ next ∈ after.find? reLinkDef, crOf next = cr)
        ∧ ((∀ line ∈ after, reLinkDef line = false) →
          ∀ last ∈ (withoutLast after).getLast?, reBlank last = false →
            crOf last = cr) := by
  cases h with
  | @definition t₁ t₂ line ht₁ hline =>
      have hnot : ¬ ∀ l ∈ t₁ ++ line :: t₂, reLinkDef l = false := by
        intro hnone
        rw [hnone line (by simp)] at hline
        cases hline
      rw [endings_of_definition ht₁ hline]
      exact ⟨fun hdef => ⟨hdef, fun hnone => absurd hnone hnot⟩, fun h => h.1⟩
  | @newline ls hnone =>
      have hall : ∀ l ∈ ls ++ [[]], reLinkDef l = false := by
        rw [List.forall_mem_append, List.forall_mem_singleton]
        exact ⟨hnone, rfl⟩
      have hreference : referenceLine (before ++ ls)
            (keptOf [.definition definition cr, .kept []] ++ [])
          = (before ++ ls).getLast?.getD [] := reference_of_newline isEmptyText_nil
      rw [endingsFit_append, find_none hall, withoutLast_concat, ← blank_fits_iff before]
      rw [endingsFit_blankAfter, hreference]
      constructor
      · rintro ⟨hblank, -⟩
        exact ⟨nofun, fun _ => hblank⟩
      · rintro ⟨-, hblank⟩
        exact ⟨hblank hall, Or.inl (Or.inr rfl), trivial, trivial⟩
  | finish hne hnone hlast =>
      have hwithout : withoutLast after = after := if_neg hlast
      rw [endingsFit_append, find_none hnone, hwithout, ← blank_fits_iff before]
      rw [endingsFit_blankAfter]
      constructor
      · rintro ⟨hblank, -⟩
        exact ⟨nofun, fun _ => hblank⟩
      · rintro ⟨-, hblank⟩
        exact ⟨hblank hnone, Or.inl (Or.inl rfl), trivial⟩
  | extra hcr =>
      refine iff_of_true ⟨Or.inl (Or.inl rfl), ?_, trivial⟩ ⟨nofun, ?_⟩
      · show [] = crOf (referenceLine (before ++ []) [])
        rw [List.append_nil, ← hplace, hcr]
      · intro _ last hlast
        cases hlast
  | done hcr =>
      refine iff_of_true ⟨Or.inl (Or.inl rfl), trivial⟩ ⟨nofun, ?_⟩
      intro _ last hlast
      cases hlast

/-- The result ends as the file does, unless an empty element is taken for
its end. -/
theorem Tail.newline_iff (h : Tail cr definition after tail) (hne : definition ≠ []) :
    ((tail.map Written.text).getLast? = some [] ↔ after.getLast? = some [])
      ↔ (after = [] → cr = ['\r']) := by
  cases h with
  | @definition t₁ t₂ line ht₁ hline =>
      refine iff_of_true ?_ (fun hnil => by simp at hnil)
      rw [List.append_cons, List.map_append, map_text_kept,
        List.getLast?_append_of_ne_nil _ (List.cons_ne_nil _ _),
        List.getLast?_append_of_ne_nil _ (List.cons_ne_nil _ _)]
  | newline hnone =>
      refine iff_of_true ?_ (fun hnil => by simp at hnil)
      refine iff_of_true ?_ List.getLast?_concat
      rw [List.map_append, List.getLast?_append_of_ne_nil _ (by simp)]
      rfl
  | finish hnonempty hnone hlast =>
      refine iff_of_true ?_ (fun hnil => absurd hnil hnonempty)
      refine iff_of_false ?_ hlast
      rw [List.map_append, List.map_singleton, List.getLast?_concat]
      simpa [Written.text] using hne
  | extra hcr =>
      refine iff_of_false (fun hends => ?_) (fun hreturn => ?_)
      · have := hends.mp rfl
        cases this
      · rw [hcr] at hreturn
        cases hreturn rfl
  | done hcr =>
      refine iff_of_true (iff_of_false ?_ nofun) fun _ => hcr
      simpa [Written.text] using hne

theorem mem_blankAfter {w : Written} (h : w ∈ blankAfter (ls.map Written.kept) cr) :
    w.isDefinition = none ∧ w.isSection = none := by
  unfold blankAfter at h
  split at h
  · rcases List.mem_append.mp h with h | h
    · obtain ⟨line, -, rfl⟩ := List.mem_map.mp h
      exact ⟨rfl, rfl⟩
    · rw [List.mem_singleton.mp h]
      exact ⟨rfl, rfl⟩
  · obtain ⟨line, -, rfl⟩ := List.mem_map.mp h
    exact ⟨rfl, rfl⟩

theorem mem_map_kept {w : Written} (h : w ∈ ls.map Written.kept) :
    w.isDefinition = none := by
  obtain ⟨line, -, rfl⟩ := List.mem_map.mp h
  rfl

/-- One definition, and no link definition of the file before it. -/
theorem Tail.split (h : Tail cr definition after tail) :
    ∃ a ending b, tail = a ++ .definition definition ending :: b
      ∧ (∀ w ∈ a, w.isDefinition = none) ∧ (∀ w ∈ b, w.isDefinition = none)
      ∧ ∀ l ∈ keptOf a, reLinkDef l = false := by
  cases h with
  | @definition t₁ t₂ line ht₁ hline =>
      refine ⟨_, _, _, rfl, fun _ => mem_map_kept, fun _ => mem_map_kept, ?_⟩
      rw [keptOf_kept]
      exact ht₁
  | newline hnone =>
      refine ⟨_, _, [.kept []], rfl, fun w hw => (mem_blankAfter hw).1, ?_, ?_⟩
      · rw [List.forall_mem_singleton]
        rfl
      · rw [keptOf_blankAfter, keptOf_kept]
        exact hnone
  | finish hne hnone hlast =>
      refine ⟨_, _, [], rfl, fun w hw => (mem_blankAfter hw).1,
        List.forall_mem_nil _, ?_⟩
      rw [keptOf_blankAfter, keptOf_kept]
      exact hnone
  | extra hcr =>
      refine ⟨[], _, [.blank []], rfl, List.forall_mem_nil _, ?_,
        List.forall_mem_nil _⟩
      rw [List.forall_mem_singleton]
      rfl
  | done hcr =>
      exact ⟨[], _, [], rfl, List.forall_mem_nil _, List.forall_mem_nil _,
        List.forall_mem_nil _⟩

end tail

-- ============================================================== the result

/-- The lines `Get-GeneratedText` writes, with their origin. -/
def generatedLines [Culture] (ls : List Text) (sectionLines : List Text)
    (definition : Text) : List Written :=
  let parts := splitAtSection ls
  renderWritten parts.1 parts.2 (crOf (referenceLine parts.1 parts.2)) sectionLines
    definition

theorem map_text_generatedLines [Culture] (ls sectionLines : List Text)
    (definition : Text) :
    (generatedLines ls sectionLines definition).map Written.text
      = render (insertionOf ls) sectionLines definition :=
  map_text_renderWritten _ _ _ _ _

theorem generatedLines_place [Culture] (hsplit : ls = pre ++ after)
    (hplace : Place pre after) (sectionLines : List Text) (definition : Text) :
    generatedLines ls sectionLines definition
      = renderWritten pre after (crOf (referenceLine pre after)) sectionLines
        definition := by
  unfold generatedLines
  rw [hsplit, splitAtSection_place hplace]

/-- Generating only inserts: without the inserted lines the result is the
file again, the final newline is kept, the inserted lines have the ending of
the line they sit next to, and the definition comes before every link
definition after the section. -/
structure OnlyInserts [Culture] (ls sectionLines : List Text) (definition : Text)
    (out : List Written) : Prop where
  kept : keptOf out = ls
  sectionLines : out.filterMap Written.isSection = sectionLines
  definition : out.filterMap Written.isDefinition = [definition]
  first : ∀ x line cr y d ending z,
    out = x ++ .sectionLine line cr :: (y ++ .definition d ending :: z) →
    ∀ l ∈ keptOf y, reLinkDef l = false
  newline : (joinLines (out.map Written.text)).getLast? = some '\n'
    ↔ (joinLines ls).getLast? = some '\n'
  endings : EndingsFit [] out []

theorem first_of_tail {tail x y z : List Written} {cr' d ending : Text}
    (h : Tail cr definition after tail)
    (hsplit : blankAfter (pre.map Written.kept) cr
        ++ (sectionLines.map (Written.sectionLine · cr) ++ Written.blank cr :: tail)
      = x ++ .sectionLine line cr' :: (y ++ .definition d ending :: z)) :
    ∀ l ∈ keptOf y, reLinkDef l = false := by
  obtain ⟨a, e, b, rfl, ha, hb, hfirst⟩ := h.split
  have hnone : ∀ w ∈ blankAfter (pre.map Written.kept) cr
      ++ (sectionLines.map (Written.sectionLine · cr) ++ Written.blank cr :: a),
      w.isDefinition = none := by
    intro w hw
    rcases List.mem_append.mp hw with hw | hw
    · exact (mem_blankAfter hw).1
    rcases List.mem_append.mp hw with hw | hw
    · obtain ⟨s, -, rfl⟩ := List.mem_map.mp hw
      rfl
    · rcases List.mem_cons.mp hw with rfl | hw
      · rfl
      · exact ha w hw
  have heq : (blankAfter (pre.map Written.kept) cr
        ++ (sectionLines.map (Written.sectionLine · cr) ++ Written.blank cr :: a))
        ++ Written.definition definition e :: b
      = (x ++ .sectionLine line cr' :: y) ++ .definition d ending :: z := by
    simpa using hsplit
  obtain ⟨hbefore, -, -⟩ := (List.append_cons_inj_of_notMem
    (fun hmem => by cases hnone _ hmem) (fun hmem => by cases hb _ hmem)).mp heq
  obtain ⟨t, hrest⟩ : ∃ t, sectionLines.map (Written.sectionLine · cr)
      ++ Written.blank cr :: a = t ++ .sectionLine line cr' :: y := by
    rcases List.append_eq_append_iff.mp hbefore with ⟨t, -, hrest⟩ | ⟨t, hx, hrest⟩
    · exact ⟨t, hrest⟩
    · cases t with
      | nil => exact ⟨[], hrest.symm⟩
      | cons w t =>
          -- no line of the section is among those before it
          rw [List.cons_append] at hrest
          injection hrest with hw _
          have hmem : Written.sectionLine line cr'
              ∈ blankAfter (pre.map Written.kept) cr := by
            rw [hx, hw]
            simp
          cases (mem_blankAfter hmem).2
  have hkept := congrArg keptOf hrest
  rw [keptOf_append, keptOf_append, keptOf_section, keptOf_cons, keptOf_cons] at hkept
  have hkept : keptOf a = keptOf t ++ keptOf y := hkept
  intro l hl
  apply hfirst
  rw [hkept]
  exact List.mem_append_right _ hl

theorem getLast_joinLines {init : List Text} {last : Text} (hne : init ≠ [])
    (hlast : last.getLast? ≠ some '\n') :
    (joinLines (init ++ [last])).getLast? = some '\n' ↔ last = [] := by
  rw [joinLines_snoc]
  constructor
  · intro h
    by_contra hnil
    rw [List.getLast?_append_of_ne_nil _ hnil] at h
    exact hlast h
  · rintro rfl
    obtain ⟨rest, line, rfl⟩ := (List.eq_nil_or_concat' init).resolve_left hne
    rw [List.append_nil, printLines_snoc, List.getLast?_concat]

/-- A text ends with a line feed when its last line is empty. -/
theorem getLast_text {text : Text} (htext : text ≠ []) :
    text.getLast? = some '\n' ↔ (lines text).getLast? = some [] := by
  obtain ⟨init, last, hsnoc⟩ := (List.eq_nil_or_concat' (lines text)).resolve_left
    (List.splitOn_ne_nil _ _)
  have hjoin : joinLines (init ++ [last]) = text := by
    rw [← hsnoc, joinLines_lines]
  have hlast : '\n' ∉ last := by
    apply not_mem_lines (t := text)
    rw [hsnoc]
    simp
  have hchar : last.getLast? ≠ some '\n' := fun h => hlast (List.mem_of_getLast? h)
  rw [hsnoc, List.getLast?_concat, Option.some.injEq]
  cases init with
  | nil =>
      have htext' : text = last := by
        rw [← hjoin]
        exact List.append_nil last
      rw [htext'] at htext ⊢
      exact iff_of_false hchar htext
  | cons line init =>
      rw [← hjoin]
      exact getLast_joinLines (List.cons_ne_nil _ _) hchar

theorem Tail.lastChar {tail : List Written} (h : Tail cr definition after tail)
    (hafter : ∀ l ∈ after, '\n' ∉ l) (hdef : definition.getLast? ≠ some '\n') :
    ∃ init w, tail = init ++ [w] ∧ w.text.getLast? ≠ some '\n' := by
  have hnil : ([] : Text).getLast? ≠ some '\n' := nofun
  have hdef : (definition ++ []).getLast? ≠ some '\n' := by
    rw [List.append_nil]
    exact hdef
  cases h with
  | @definition t₁ t₂ line ht₁ hline =>
      obtain ⟨init, last, hsnoc⟩ := (List.eq_nil_or_concat' (line :: t₂)).resolve_left
        (List.cons_ne_nil _ _)
      rw [hsnoc] at hafter ⊢
      refine ⟨t₁.map Written.kept ++ .definition definition cr :: init.map Written.kept,
        .kept last, by simp, fun h => ?_⟩
      exact hafter last (by simp) (List.mem_of_getLast? h)
  | newline hnone => exact ⟨_ ++ [_], _, List.append_cons _ _ _, hnil⟩
  | finish hne hnone hlast => exact ⟨_, _, rfl, hdef⟩
  | extra hcr => exact ⟨[_], _, rfl, hnil⟩
  | done hcr => exact ⟨[], _, rfl, hdef⟩

theorem getLast_linkDefinition {short base repo : Text} (hbase : IsSha base) :
    (linkDefinition short base repo).getLast? ≠ some '\n' := by
  have hne : base ≠ [] := by
    rintro rfl
    cases hbase.1
  intro h
  unfold linkDefinition at h
  rw [List.getLast?_append_of_ne_nil _ hne] at h
  exact absurd (hbase.2 _ (List.mem_of_getLast? h)) (by decide)

theorem filterMap_section (ls : List Text) (cr : Text) :
    (ls.map (Written.sectionLine · cr)).filterMap Written.isSection = ls := by
  rw [List.filterMap_map]
  exact List.filterMap_some

theorem filterMap_definition (ls : List Text) (cr : Text) :
    (ls.map (Written.sectionLine · cr)).filterMap Written.isDefinition = [] := by
  rw [List.filterMap_map, List.filterMap_eq_nil_iff]
  exact fun _ _ => rfl

/-- The lines before the section and the section have the right endings. -/
theorem endings_of_tail [Culture] {tail : List Written} (hkept : keptOf tail = after)
    (hcr : cr = crOf (referenceLine pre after)) :
    EndingsFit [] (blankAfter (pre.map Written.kept) cr
        ++ (sectionLines.map (Written.sectionLine · cr) ++ Written.blank cr :: tail)) []
      ↔ EndingsFit pre tail [] := by
  have hrest : keptOf (sectionLines.map (Written.sectionLine · cr)
      ++ Written.blank cr :: tail) = after := by
    rw [keptOf_append, keptOf_section, keptOf_cons, hkept]
    rfl
  have hblank : keptOf (Written.blank cr :: tail) = after := by
    rw [keptOf_cons, hkept]
    rfl
  rw [endingsFit_append, endingsFit_blankAfter, hrest, keptOf_blankAfter, keptOf_kept,
    endingsFit_append, keptOf_section, hblank, endingsFit_cons, hkept]
  simp only [List.nil_append, List.append_nil]
  constructor
  · rintro ⟨-, -, -, htail⟩
    simpa [Written.isKept] using htail
  · intro htail
    refine ⟨fun _ => hcr, endingsFit_section _ hcr, hcr, ?_⟩
    simpa [Written.isKept] using htail

variable {text heading short base repoUrl : Text}

theorem onlyInserts_place [Culture] {tail : List Written} (htext : text ≠ [])
    (hsplit : lines text = pre ++ after) (hplace : Place pre after)
    (hcr : cr = crOf (referenceLine pre after))
    (hcounts : (∀ l ∈ after, reLinkDef l = false) → LastCounts after)
    (htail : Tail cr definition after tail) (hdef : definition ≠ [])
    (hchar : definition.getLast? ≠ some '\n') :
    OnlyInserts (lines text) sectionLines definition
        (blankAfter (pre.map Written.kept) cr
          ++ (sectionLines.map (Written.sectionLine · cr) ++ Written.blank cr :: tail))
      ↔ UndisturbedAfter cr after := by
  have hlf : ∀ l ∈ after, '\n' ∉ l := by
    intro l hl
    apply not_mem_lines (t := text)
    rw [hsplit]
    exact List.mem_append_right _ hl
  have hlast : (lines text).getLast? = some [] ↔ after.getLast? = some [] := by
    rw [hsplit]
    cases hplace with
    | finish hpre hlast =>
        rw [List.append_nil]
        exact iff_of_false (getLast_ne_nil hlast) nofun
    | head | definition | newline =>
        rw [List.getLast?_append_of_ne_nil _ (List.cons_ne_nil _ _)]
  have hnewline : ((joinLines ((blankAfter (pre.map Written.kept) cr
          ++ (sectionLines.map (Written.sectionLine · cr)
            ++ Written.blank cr :: tail)).map Written.text)).getLast? = some '\n'
        ↔ (joinLines (lines text)).getLast? = some '\n')
      ↔ (after = [] → cr = ['\r']) := by
    rw [joinLines_lines, getLast_text htext, hlast, ← htail.newline_iff hdef]
    obtain ⟨init, w, hsnoc, hw⟩ := htail.lastChar hlf hchar
    have hcons : blankAfter (pre.map Written.kept) cr
        ++ (sectionLines.map (Written.sectionLine · cr) ++ Written.blank cr :: tail)
        = (blankAfter (pre.map Written.kept) cr
          ++ (sectionLines.map (Written.sectionLine · cr)
            ++ Written.blank cr :: init)) ++ [w] := by
      rw [hsnoc]
      simp
    rw [hcons, List.map_append, List.map_singleton, getLast_joinLines (by simp) hw,
      hsnoc, List.map_append, List.map_singleton, List.getLast?_concat,
      Option.some.injEq]
  constructor
  · rintro ⟨-, -, -, -, hends, hfit⟩
    rw [endings_of_tail htail.kept hcr, htail.endings hcr] at hfit
    exact ⟨hnewline.mp hends, hfit.1, hfit.2, hcounts⟩
  · rintro ⟨hend, hdefinition, hblank, -⟩
    refine ⟨?_, ?_, ?_, ?_, hnewline.mpr hend, ?_⟩
    · rw [keptOf_append, keptOf_blankAfter, keptOf_kept, keptOf_append,
        keptOf_section, keptOf_cons, htail.kept, hsplit]
      rfl
    · rw [List.filterMap_append, isSection_blankAfter, List.filterMap_append,
        filterMap_section, List.filterMap_cons_none rfl, htail.noSection]
      exact List.append_nil _
    · rw [List.filterMap_append, isDefinition_blankAfter, List.filterMap_append,
        filterMap_definition, List.filterMap_cons_none rfl, htail.definitions]
      rfl
    · intro x line cr' y d ending z heq
      exact first_of_tail htail heq
    · rw [endings_of_tail htail.kept hcr, htail.endings hcr]
      exact ⟨hdefinition, hblank⟩

theorem not_kept [Culture]
    (hcounts : ¬ ((∀ l ∈ after, reLinkDef l = false) → LastCounts after)) :
    keptOf (renderWritten pre after cr sectionLines definition) ≠ pre ++ after := by
  intro hkept
  push Not at hcounts
  obtain ⟨hnone, hlost⟩ := hcounts
  rcases List.eq_nil_or_concat' after with rfl | ⟨init, last, rfl⟩
  · exact hlost fun _ hlast => by cases hlast
  · rw [lastCounts_concat] at hlost
    push Not at hlost
    rw [kept_of_lost hnone hlost.1 hlost.2, ← List.append_assoc] at hkept
    have hlength := congrArg List.length hkept
    simp at hlength

/-- The result has the lines of the file and the inserted ones, and only
inserts exactly for an undisturbed file. -/
theorem generated_only_inserts_iff [Culture] (htext : text ≠ [])
    (hsection : IsSection heading sectionLines) (hhead : reHead heading = true)
    (hbase : IsSha base) :
    joinLines ((generatedLines (lines text) sectionLines
        (linkDefinition short base repoUrl)).map Written.text)
      = getGeneratedText (lines text) short base repoUrl sectionLines
      ∧ (OnlyInserts (lines text) sectionLines (linkDefinition short base repoUrl)
          (generatedLines (lines text) sectionLines
            (linkDefinition short base repoUrl))
        ↔ Undisturbed (lines text)) := by
  refine ⟨congrArg joinLines (map_text_generatedLines _ _ _), ?_⟩
  obtain ⟨pre, after, hsplit, hplace⟩ := exists_place (lines text)
  have hne : pre ++ after ≠ [] := hsplit ▸ List.splitOn_ne_nil _ _
  rw [generatedLines_place hsplit hplace]
  by_cases hcounts : (∀ l ∈ after, reLinkDef l = false) → LastCounts after
  · obtain ⟨tail, htail, hout⟩ := exists_tail hplace.following hcounts
      (isCr_crOf (referenceLine pre after)) (hsection.needsBlank hhead) pre
      (linkDefinition short base repoUrl)
    rw [hout, onlyInserts_place htext hsplit hplace rfl hcounts htail
      (List.cons_ne_nil _ _) (getLast_linkDefinition hbase), hsplit,
      undisturbed_place hplace hne]
  · -- the last line is lost
    refine iff_of_false (fun honly => ?_) fun hls => ?_
    · have hkept := honly.kept
      rw [hsplit] at hkept
      exact not_kept hcounts hkept
    · rw [hsplit, undisturbed_place hplace hne] at hls
      exact hcounts hls.last

/-- A section with one entry. -/
def oneEntry : List Text :=
  ["## [aaaaaaaaaaaa] - 2024-01-02".toList, [], "### Added".toList, [],
    "- one".toList]

theorem isSection_oneEntry :
    IsSection "## [aaaaaaaaaaaa] - 2024-01-02".toList oneEntry where
  body := by
    refine ⟨_, rfl, ?_⟩
    simp only [List.forall_mem_cons]
    exact ⟨.blank, .title "Added".toList, .blank, .entry "one".toList,
      List.forall_mem_nil _⟩
  oneLine := by decide
  last := by
    rintro line ⟨⟩
    exact Or.inr ⟨"one".toList, rfl⟩

/-- Where such a section is put in, the definition is this. -/
def oneDefinition : Text :=
  linkDefinition "aaaaaaaaaaaa".toList (List.replicate 40 'a')
    "https://github.com/a/b".toList

open SoftHyphen

theorem generated_only_inserts_iff_crlf :
    OnlyInserts (lines "# Changes\r\n\r\nAll.\r\n".toList) oneEntry oneDefinition
      (generatedLines (lines "# Changes\r\n\r\nAll.\r\n".toList) oneEntry
        oneDefinition) := by
  refine (generated_only_inserts_iff (by decide) isSection_oneEntry (by decide)
    (by decide)).2.mpr ?_
  rw [undisturbed_of_noHead (by decide)]
  intro _
  refine ⟨fun hlast => absurd rfl hlast, ?_⟩
  rintro last ⟨⟩ _
  rfl

/-- A text without headings, definitions and a final newline gets one, and a
last line of one soft hyphen is lost. -/
theorem texts_disturbed :
    ¬ OnlyInserts (lines "hello".toList) oneEntry oneDefinition
        (generatedLines (lines "hello".toList) oneEntry oneDefinition)
      ∧ ¬ OnlyInserts (lines ("## [x]\n".toList ++ [softHyphen])) oneEntry
        oneDefinition
        (generatedLines (lines ("## [x]\n".toList ++ [softHyphen])) oneEntry
          oneDefinition) := by
  constructor
  · intro h
    have hends := h.newline
    revert hends
    decide
  · intro h
    have hkept := h.kept
    revert hkept
    decide

end RestifyCapl.Ci
