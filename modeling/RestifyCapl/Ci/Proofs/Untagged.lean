/-
Dropping unreleased sections is exact. A line is removed when it is in a
section that begins with a hash heading the last tag does not have, up to
where `Get-SectionEnd` ends it, or when it is a link definition of such a
hash (`Removed`). The loop of `Remove-UntaggedSections` keeps all other
lines in order (`keepLines_eq_keepAt`), so that no unreleased heading is
left and a second time removes nothing (`untagged_sections_exact`).
-/
import RestifyCapl.Ci.Proofs.Sections
import Mathlib.Data.List.Enum

namespace RestifyCapl.Ci

variable {α : Type*} {dropped released ls rest : List Text} {line hash : Text}
variable {skipping : Bool} {start k : Nat}

-- =============================================================== positions

open Classical in
/-- The elements at the positions with a property, in order. -/
noncomputable def keepAt (P : Nat → Prop) (l : List α) : List α :=
  (l.zipIdx.filter fun e => P e.2).map Prod.fst

section keepAt

variable {P Q : Nat → Prop} {x : α} {l : List α}

theorem keepAt_shift (P : Nat → Prop) (l : List α) :
    ((l.zipIdx 1).filter fun e => open Classical in decide (P e.2)).map Prod.fst
      = keepAt (fun k => P (k + 1)) l := by
  unfold keepAt
  rw [List.zipIdx_succ, List.filter_map, List.map_map]
  rfl

theorem keepAt_cons_of_pos (h : P 0) :
    keepAt P (x :: l) = x :: keepAt (fun k => P (k + 1)) l := by
  rw [← keepAt_shift P l]
  unfold keepAt
  rw [List.zipIdx_cons, List.filter_cons_of_pos (by simpa using h)]
  rfl

theorem keepAt_cons_of_neg (h : ¬ P 0) :
    keepAt P (x :: l) = keepAt (fun k => P (k + 1)) l := by
  rw [← keepAt_shift P l]
  unfold keepAt
  rw [List.zipIdx_cons, List.filter_cons_of_neg (by simpa using h)]

theorem keepAt_sublist (P : Nat → Prop) (l : List α) : (keepAt P l).Sublist l := by
  have h : (l.zipIdx.map Prod.fst) = l := List.zipIdx_map_fst 0 l
  conv_rhs => rw [← h]
  exact List.Sublist.map _ List.filter_sublist

theorem keepAt_congr (h : ∀ k, P k ↔ Q k) : keepAt P l = keepAt Q l := by
  rw [funext fun k => propext (h k)]

end keepAt

-- ================================================================ the loop

/-- Position `k` is in a section that begins with a dropped heading. -/
def InDropped (dropped ls : List Text) (k : Nat) : Prop :=
  ∃ start line, start ≤ k ∧ k < getSectionEnd ls start ∧ ls[start]? = some line
    ∧ (reHashHead line).any (· ∈ dropped) = true

/-- Position `k` is a definition of a dropped hash. -/
def IsDropped (dropped ls : List Text) (k : Nat) : Prop :=
  ∃ line, ls[k]? = some line ∧ (reDefHash line).any (· ∈ dropped) = true

/-- What the loop passes over, when it is in a dropped section already where
`skipping`. -/
def Passed (dropped : List Text) (skipping : Bool) (ls : List Text) (k : Nat) :
    Prop :=
  (skipping = true ∧ k < ls.findIdx endsSection) ∨ InDropped dropped ls k
    ∨ IsDropped dropped ls k

theorem inDropped_zero :
    InDropped dropped (line :: rest) 0
      ↔ (reHashHead line).any (· ∈ dropped) = true := by
  constructor
  · rintro ⟨start, first, hstart, -, hfirst, hhead⟩
    rw [Nat.le_zero.mp hstart] at hfirst
    cases hfirst
    exact hhead
  · intro hhead
    refine ⟨0, line, Nat.le_refl 0, ?_, rfl, hhead⟩
    unfold getSectionEnd
    omega

theorem getSectionEnd_succ (line : Text) (rest : List Text) (start : Nat) :
    getSectionEnd (line :: rest) (start + 1) = getSectionEnd rest start + 1 := by
  unfold getSectionEnd
  rw [List.drop_succ_cons]
  omega

theorem inDropped_succ :
    InDropped dropped (line :: rest) (k + 1)
      ↔ (reHashHead line).any (· ∈ dropped) = true
          ∧ k < rest.findIdx endsSection
        ∨ InDropped dropped rest k := by
  constructor
  · rintro ⟨start, first, hstart, hend, hfirst, hhead⟩
    cases start with
    | zero =>
        cases hfirst
        have hend : k + 1 < 0 + 1 + rest.findIdx endsSection := hend
        exact Or.inl ⟨hhead, by omega⟩
    | succ start =>
        rw [getSectionEnd_succ] at hend
        exact Or.inr ⟨start, first, by omega, by omega, hfirst, hhead⟩
  · rintro (⟨hhead, hend⟩ | ⟨start, first, hstart, hend, hfirst, hhead⟩)
    · refine ⟨0, line, by omega, ?_, rfl, hhead⟩
      show k + 1 < 0 + 1 + rest.findIdx endsSection
      omega
    · refine ⟨start + 1, first, by omega, ?_, hfirst, hhead⟩
      rw [getSectionEnd_succ]
      omega

theorem passed_zero :
    Passed dropped skipping (line :: rest) 0
      ↔ (skipping && !endsSection line) = true
        ∨ (reHashHead line).any (· ∈ dropped) = true
        ∨ (reDefHash line).any (· ∈ dropped) = true := by
  have hfirst : 0 < (line :: rest).findIdx endsSection ↔ endsSection line = false := by
    rw [List.findIdx_cons]
    cases endsSection line <;> simp
  have hdef : IsDropped dropped (line :: rest) 0
      ↔ (reDefHash line).any (· ∈ dropped) = true := by
    unfold IsDropped
    simp
  unfold Passed
  rw [inDropped_zero, hdef, hfirst, Bool.and_eq_true, Bool.not_eq_true']

/-- The loop goes on skipping over lines that do not end a section, and
begins to at a dropped heading. -/
theorem passed_succ :
    Passed dropped skipping (line :: rest) (k + 1)
      ↔ Passed dropped ((skipping && !endsSection line)
          || (reHashHead line).any (· ∈ dropped)) rest k := by
  have hfirst : k + 1 < (line :: rest).findIdx endsSection
      ↔ endsSection line = false ∧ k < rest.findIdx endsSection := by
    rw [List.findIdx_cons]
    cases endsSection line <;> simp
  have hdef : IsDropped dropped (line :: rest) (k + 1) ↔ IsDropped dropped rest k :=
    Iff.rfl
  unfold Passed
  rw [inDropped_succ, hdef, hfirst, Bool.or_eq_true, Bool.and_eq_true,
    Bool.not_eq_true']
  tauto

theorem keepLines_eq_keepAt (dropped : List Text) (skipping : Bool)
    (ls : List Text) : keepLines dropped skipping ls
      = keepAt (fun k => ¬ Passed dropped skipping ls k) ls := by
  induction ls generalizing skipping with
  | nil => rfl
  | cons line rest ih =>
      have hrest : keepAt (fun k => ¬ Passed dropped skipping (line :: rest) (k + 1)) rest
          = keepLines dropped ((skipping && !endsSection line)
            || (reHashHead line).any (· ∈ dropped)) rest := by
        rw [ih]
        exact keepAt_congr fun k => not_congr passed_succ
      rw [keepLines_cons]
      by_cases hzero : Passed dropped skipping (line :: rest) 0
      · rw [keepAt_cons_of_neg (not_not.mpr hzero), hrest]
        rw [passed_zero] at hzero
        split
        next hskip => rw [hskip, Bool.true_or]
        next hskip =>
          split
          next hhead => rw [hhead, Bool.or_true]
          next hhead =>
            rw [if_pos (hzero.resolve_left hskip |>.resolve_left hhead),
              eq_false_of_ne_true hskip, eq_false_of_ne_true hhead, Bool.or_self]
      · rw [keepAt_cons_of_pos hzero, hrest]
        rw [passed_zero] at hzero
        push Not at hzero
        obtain ⟨hskip, hhead, hdef⟩ := hzero
        rw [if_neg hskip, if_neg hhead, if_neg hdef, eq_false_of_ne_true hskip,
          eq_false_of_ne_true hhead, Bool.or_self]

-- ============================================================ the sections

/-- A hash of a heading that the last tag does not have. -/
def Unreleased (released ls : List Text) (hash : Text) : Prop :=
  hash ∈ hashHeads ls ∧ hash ∉ released

/-- Position `k` is in the section of an unreleased heading: from the heading
up to the next heading or link definition. -/
def InUnreleased (released ls : List Text) (k : Nat) : Prop :=
  ∃ start line hash, start ≤ k ∧ k < getSectionEnd ls start
    ∧ ls[start]? = some line ∧ reHashHead line = some hash ∧ hash ∉ released

/-- The line begins as a definition of an unreleased hash. -/
def DefinesUnreleased (released ls : List Text) (line : Text) : Prop :=
  ∃ hash, Unreleased released ls hash ∧ ('[' :: hash ++ "]:".toList) <+: line

/-- A line that `Remove-UntaggedSections` removes. -/
def Removed (released ls : List Text) (k : Nat) : Prop :=
  InUnreleased released ls k
    ∨ ∃ line, ls[k]? = some line ∧ DefinesUnreleased released ls line

/-- The set `$dropped`. -/
def droppedHashes (released ls : List Text) : List Text :=
  (hashHeads ls).filter (· ∉ released)

theorem mem_droppedHashes :
    hash ∈ droppedHashes released ls ↔ Unreleased released ls hash := by
  unfold droppedHashes Unreleased
  rw [List.mem_filter, decide_eq_true_eq]

theorem removeSections_eq (released ls : List Text) :
    removeSections released ls = keepLines (droppedHashes released ls) false ls := by
  show (if (droppedHashes released ls).isEmpty then ls else _) = _
  split
  next hempty =>
    have hkeeps : ∀ line ∈ ls, Keeps (droppedHashes released ls) line := by
      rw [List.isEmpty_iff.mp hempty]
      exact fun line _ => ⟨fun _ _ => List.not_mem_nil, fun _ _ => List.not_mem_nil⟩
    have hall : keepLines _ false (ls ++ []) = ls ++ keepLines _ false [] :=
      keepLines_append hkeeps
    rw [List.append_nil] at hall
    rw [hall]
    exact (List.append_nil ls).symm
  next => rfl

theorem isShort_of_unreleased (h : Unreleased released ls hash) : IsShort hash := by
  obtain ⟨line, -, hhead⟩ := mem_hashHeads.mp h.1
  exact (reHashHead_start hhead).1

theorem any_mem_iff {found : Option Text} :
    found.any (· ∈ dropped) = true ↔ ∃ hash, found = some hash ∧ hash ∈ dropped := by
  rw [Option.any_eq_true]
  simp only [decide_eq_true_eq]

theorem inDropped_iff :
    InDropped (droppedHashes released ls) ls k ↔ InUnreleased released ls k := by
  constructor
  · rintro ⟨start, line, hstart, hend, hline, hany⟩
    obtain ⟨hash, hhead, hdropped⟩ := any_mem_iff.mp hany
    exact ⟨start, line, hash, hstart, hend, hline, hhead,
      (mem_droppedHashes.mp hdropped).2⟩
  · rintro ⟨start, line, hash, hstart, hend, hline, hhead, hnew⟩
    refine ⟨start, line, hstart, hend, hline, any_mem_iff.mpr ⟨hash, hhead, ?_⟩⟩
    exact mem_droppedHashes.mpr
      ⟨mem_hashHeads.mpr ⟨line, List.mem_of_getElem? hline, hhead⟩, hnew⟩

theorem defines_iff :
    (reDefHash line).any (· ∈ droppedHashes released ls) = true
      ↔ DefinesUnreleased released ls line := by
  rw [any_mem_iff]
  constructor
  · rintro ⟨hash, hdef, hdropped⟩
    have hnew := mem_droppedHashes.mp hdropped
    exact ⟨hash, hnew, (reDefHash_iff (isShort_of_unreleased hnew)).mp hdef⟩
  · rintro ⟨hash, hnew, hstart⟩
    exact ⟨hash, (reDefHash_iff (isShort_of_unreleased hnew)).mpr hstart,
      mem_droppedHashes.mpr hnew⟩

theorem passed_iff :
    Passed (droppedHashes released ls) false ls k ↔ Removed released ls k := by
  unfold Passed Removed IsDropped
  rw [inDropped_iff]
  simp only [defines_iff, Bool.false_eq_true, false_and, false_or]

/-- All lines but the removed ones are kept, in order. -/
theorem removeSections_exact (released ls : List Text) :
    removeSections released ls = keepAt (fun k => ¬ Removed released ls k) ls := by
  rw [removeSections_eq, keepLines_eq_keepAt]
  exact keepAt_congr fun k => not_congr passed_iff

theorem removeSections_twice (released ls : List Text) :
    removeSections released (removeSections released ls)
      = removeSections released ls := by
  have hnone : droppedHashes released (removeSections released ls) = [] := by
    rw [droppedHashes, List.filter_eq_nil_iff]
    intro hash hhash
    simpa using hashHeads_removeSections hhash
  show (if (droppedHashes released (removeSections released ls)).isEmpty then _
    else _) = _
  rw [hnone]
  rfl

/-- A heading or link definition after the start ends the section. -/
theorem getSectionEnd_le (hafter : start < k) (hline : ls[k]? = some line)
    (hends : endsSection line = true) : getSectionEnd ls start ≤ k := by
  have hget : (ls.drop (start + 1))[k - (start + 1)]? = some line := by
    rw [List.getElem?_drop, Nat.add_sub_cancel' hafter, hline]
  obtain ⟨hlt, hget⟩ := List.getElem?_eq_some_iff.mp hget
  have hfound : (ls.drop (start + 1)).findIdx endsSection ≤ k - (start + 1) := by
    by_contra h
    have := List.not_of_lt_findIdx (Nat.lt_of_not_le h)
    rw [hget, hends] at this
    cases this
  unfold getSectionEnd
  omega

/-- A section whose heading is not unreleased loses only definitions. -/
theorem removed_in_kept (hstart : ls[start]? = some line) (hhead : reHead line = true)
    (hkept : ∀ hash, reHashHead line = some hash → hash ∈ released)
    (hfrom : start ≤ k) (hend : k < getSectionEnd ls start) :
    Removed released ls k
      ↔ ∃ line, ls[k]? = some line ∧ DefinesUnreleased released ls line := by
  refine or_iff_right ?_
  rintro ⟨other, first, hash, hother, hotherEnd, hfirst, hhash, hnew⟩
  have hends : ∀ {line}, reHead line = true → endsSection line = true := by
    intro line h
    rw [endsSection, h, Bool.true_or]
  rcases Nat.lt_trichotomy other start with hlt | heq | hlt
  · have := getSectionEnd_le hlt hstart (hends hhead)
    omega
  · rw [heq, hstart, Option.some.injEq] at hfirst
    rw [← hfirst] at hhash
    exact hnew (hkept hash hhash)
  · have := getSectionEnd_le hlt hfirst (hends (reHead_of_hash hhash))
    omega

/-- Dropping unreleased sections is exact. -/
theorem untagged_sections_exact (git : Git) (ls : List Text) {shown : Text}
    {stderr : List Text} (hshow : showLastTag git = .ok (shown, stderr)) :
    ∃ kept, removeUntaggedSections git ls = .ok (kept, stderr)
      ∧ kept = keepAt (fun k => ¬ Removed (hashHeads (lines shown)) ls k) ls
      ∧ kept.Sublist ls
      ∧ (∀ line ∈ kept, ∀ hash, reHashHead line = some hash →
        hash ∈ hashHeads (lines shown))
      ∧ (∀ start line, ls[start]? = some line → reHead line = true →
        (∀ hash, reHashHead line = some hash → hash ∈ hashHeads (lines shown)) →
        ∀ k, start ≤ k → k < getSectionEnd ls start →
          (Removed (hashHeads (lines shown)) ls k
            ↔ ∃ line, ls[k]? = some line
              ∧ DefinesUnreleased (hashHeads (lines shown)) ls line))
      ∧ removeUntaggedSections git kept = .ok (kept, stderr) := by
  have hrun : ∀ ls, removeUntaggedSections git ls
      = .ok (removeSections (hashHeads (lines shown)) ls, stderr) := by
    intro ls
    unfold removeUntaggedSections
    rw [hshow]
  refine ⟨_, hrun ls, removeSections_exact _ ls, ?_, ?_, ?_, ?_⟩
  · rw [removeSections_exact]
    exact keepAt_sublist _ ls
  · intro line hline hash hhash
    exact hashHeads_removeSections (mem_hashHeads.mpr ⟨line, hline, hhash⟩)
  · intro start line hstart hhead hkept k hfrom hend
    exact removed_in_kept hstart hhead hkept hfrom hend
  · rw [hrun, removeSections_twice]

/-- One tag, with one section at it. -/
def oneRelease : Git := fun args =>
  if args = ["tag".toList, "--list".toList] then success "v1.0.0\n".toList
  else success "## [aaaaaaaaaaaa] - 2024-01-02\n- one\n".toList

/-- A section was added to it, and is still to be released. -/
def addedSection : List Text :=
  ["# Changelog".toList, "## [bbbbbbbbbbbb] - 2024-03-04\r".toList,
    "- two\r".toList, "## [aaaaaaaaaaaa] - 2024-01-02".toList, "- one".toList,
    "[bbbbbbbbbbbb]: https://example.com".toList,
    "[aaaaaaaaaaaa]: https://example.com".toList]

theorem untagged_sections_exact_added :
    ∃ kept, removeUntaggedSections oneRelease addedSection = .ok (kept, [])
      ∧ kept.length = 4
      ∧ removeUntaggedSections oneRelease kept = .ok (kept, []) := by
  have hshow : showLastTag oneRelease
      = .ok ("## [aaaaaaaaaaaa] - 2024-01-02\n- one\n".toList, []) := rfl
  obtain ⟨kept, hkept, -, -, -, -, htwice⟩ :=
    untagged_sections_exact oneRelease addedSection hshow
  have hlength : (removeUntaggedSections oneRelease addedSection).toOption.map
      (fun run => run.1.length) = some 4 := by
    decide
  rw [hkept] at hlength
  exact ⟨kept, hkept, Option.some.inj hlength, htwice⟩

end RestifyCapl.Ci
