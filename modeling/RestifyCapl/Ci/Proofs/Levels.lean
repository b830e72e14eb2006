/-
`Get-Level` and `Get-Entries` classify the commits of a range one by one,
and independently. Each raises a flag at the same commits: the level is
none exactly when no part of the section but Development has an entry
(`getLevel_none_iff`), so `generate` and `pr-body` find nothing to release
exactly when `level` prints none (`level_agrees`).
-/
import RestifyCapl.Ci.PrBody
import RestifyCapl.Ci.Proofs.AbandonedCut
import RestifyCapl.Lib.Fold

namespace RestifyCapl.Ci

open Lib

-- ============================================================== the commits

/-- After the cut-off, and no release. -/
def Counted (c : RangeCommit) : Prop :=
  c.pre = false ∧ c.subject.type ≠ .release

def IsBreaking (c : RangeCommit) : Prop := ∃ m ∈ c.messages, m.breaking = true

def IsFeature (c : RangeCommit) : Prop :=
  c.subject.type = .feat ∨ c.subject.type = .stage

def IsFixed (c : RangeCommit) : Prop := c.subject.type = .fix

/-- Some commit of the range that counts has a property. -/
def Range.Has (range : Range) (p : RangeCommit → Prop) : Prop :=
  ∃ c ∈ range.commits, Counted c ∧ p c

theorem filter_breaking_pos {c : RangeCommit} :
    (c.messages.filter Message.breaking).length > 0 ↔ IsBreaking c := by
  show 0 < _ ↔ _
  rw [List.length_pos_iff_exists_mem]
  simp only [List.mem_filter]
  rfl

theorem not_counted {c : RangeCommit} :
    (c.pre = true ∨ c.subject.type = .release) ↔ ¬ Counted c := by
  unfold Counted
  rw [not_and_or, not_not, Bool.not_eq_false]

-- ================================================================ the level

/-- The flags after one commit. -/
theorem raise_iff (r : Raised) (c : RangeCommit) :
    ((raise r c).breaking = true
        ↔ r.breaking = true ∨ Counted c ∧ IsBreaking c)
      ∧ ((raise r c).minor = true ↔ r.minor = true ∨ Counted c ∧ IsFeature c)
      ∧ ((raise r c).patch = true
        ↔ r.patch = true ∨ Counted c ∧ IsFixed c) := by
  by_cases hcounted : Counted c
  · unfold raise IsFeature IsFixed
    rw [if_neg fun hskip => not_counted.mp hskip hcounted]
    by_cases hbreaking : IsBreaking c
    · rw [if_pos (filter_breaking_pos.mpr hbreaking)]
      cases htype : c.subject.type <;> simp [hcounted, hbreaking]
    · rw [if_neg fun hpos => hbreaking (filter_breaking_pos.mp hpos)]
      cases htype : c.subject.type <;> simp [hcounted, hbreaking]
  · unfold raise
    rw [if_pos (not_counted.mpr hcounted)]
    simp [hcounted]

/-- The flags of a range. -/
theorem raised_iff (range : Range) :
    ((range.commits.foldl raise ⟨false, false, false⟩).breaking = true
        ↔ range.Has IsBreaking)
      ∧ ((range.commits.foldl raise ⟨false, false, false⟩).minor = true
        ↔ range.Has IsFeature)
      ∧ ((range.commits.foldl raise ⟨false, false, false⟩).patch = true
        ↔ range.Has IsFixed) := by
  have hrun : ∀ (flag : Raised → Bool) (p : RangeCommit → Prop),
      (∀ r c, flag (raise r c) = true ↔ flag r = true ∨ Counted c ∧ p c) →
      (flag (range.commits.foldl raise ⟨false, false, false⟩) = true
        ↔ flag ⟨false, false, false⟩ = true ∨ range.Has p) :=
    fun flag _ hstep => flag_foldl (fun r => flag r = true) hstep _ _
  refine ⟨?_, ?_, ?_⟩
  · simpa using hrun Raised.breaking IsBreaking fun r c => (raise_iff r c).1
  · simpa using hrun Raised.minor IsFeature fun r c => (raise_iff r c).2.1
  · simpa using hrun Raised.patch IsFixed fun r c => (raise_iff r c).2.2

theorem getLevel_eq (range : Range) (level : Level) : getLevel range = level ↔
    match level with
    | .major => range.Has IsBreaking ∧ 1 ≤ (ofLex range.latest).1
    | .minor => ¬ (range.Has IsBreaking ∧ 1 ≤ (ofLex range.latest).1)
        ∧ (range.Has IsBreaking ∨ range.Has IsFeature)
    | .patch => ¬ (range.Has IsBreaking ∨ range.Has IsFeature)
        ∧ range.Has IsFixed
    | .none => ¬ (range.Has IsBreaking ∨ range.Has IsFeature
        ∨ range.Has IsFixed) := by
  obtain ⟨hbreaking, hminor, hpatch⟩ := raised_iff range
  unfold getLevel
  generalize range.commits.foldl raise ⟨false, false, false⟩ = r at *
  rw [← hbreaking, ← hminor, ← hpatch]
  rcases r with ⟨breaking, minor, patch⟩
  by_cases hmajor : 1 ≤ (ofLex range.latest).1
  all_goals cases breaking <;> cases minor <;> cases patch
  all_goals cases level <;> simp [hmajor]

-- ============================================================== the entries

/-- Is there an entry that is released? -/
def Entries.Released (e : Entries) : Prop :=
  e.breaking ≠ [] ∨ e.added ≠ [] ∨ e.fixed ≠ []

theorem Entries.not_released_iff {e : Entries} :
    e.breaking.length + e.added.length + e.fixed.length = 0
      ↔ ¬ e.Released := by
  unfold Entries.Released
  simp [and_assoc]

namespace Entries

variable {e : Entries} {ls : List Text}

@[simp] theorem released_addBreaking :
    (e.addBreaking ls).Released ↔ e.Released ∨ ls ≠ [] := by
  unfold Released addBreaking
  simp only [ne_eq, List.append_eq_nil_iff, not_and_or]
  tauto

@[simp] theorem released_addAdded :
    (e.addAdded ls).Released ↔ e.Released ∨ ls ≠ [] := by
  unfold Released addAdded
  simp only [ne_eq, List.append_eq_nil_iff, not_and_or]
  tauto

@[simp] theorem released_addFixed :
    (e.addFixed ls).Released ↔ e.Released ∨ ls ≠ [] := by
  unfold Released addFixed
  simp only [ne_eq, List.append_eq_nil_iff, not_and_or]
  tauto

@[simp] theorem released_addDevelopment :
    (e.addDevelopment ls).Released ↔ e.Released := Iff.rfl

@[simp] theorem released_warn {condition : Bool} {warning : Text} :
    (e.warn condition warning).Released ↔ e.Released := by
  unfold warn
  cases condition <;> exact Iff.rfl

end Entries

/-- Nothing is in neither part of a list. -/
theorem filter_or_filter_not {ms : List Message} (p : Message → Bool)
    (h : ms ≠ []) : ms.filter p ≠ [] ∨ (ms.filter fun m => !p m) ≠ [] := by
  obtain ⟨m, rest, rfl⟩ := List.exists_cons_of_ne_nil h
  cases hp : p m <;> simp [hp]

theorem filter_breaking_ne_nil {c : RangeCommit} :
    c.messages.filter Message.breaking ≠ [] ↔ IsBreaking c := by
  rw [← List.length_pos_iff]
  exact filter_breaking_pos

/-- A commit is released for a breaking message, or for its type: one of
type feat, stage or fix without an entry of its own gets one by its branch
name. -/
theorem addCommit_released (repoUrl : Text) (e : Entries) (c : RangeCommit) :
    (addCommit repoUrl e c).Released ↔ e.Released
      ∨ Counted c ∧ (IsBreaking c ∨ IsFeature c ∨ IsFixed c) := by
  by_cases hcounted : Counted c
  · obtain ⟨hpre, hrelease⟩ := id hcounted
    have hbreaking := filter_breaking_ne_nil (c := c)
    unfold addCommit
    dsimp only
    rw [if_neg hrelease, if_neg (by simp [hpre])]
    by_cases htype : c.subject.type = .feat ∨ c.subject.type = .stage
        ∨ c.subject.type = .fix
    · rw [if_pos htype]
      have hcounts : IsFeature c ∨ IsFixed c := by
        unfold IsFeature IsFixed
        rwa [or_assoc]
      by_cases hempty : (c.messages.filter isTyped).length
          + (c.messages.filter Message.breaking).length = 0
      · rw [if_pos hempty]
        split_ifs <;> simp [hcounted, hcounts]
      · rw [if_neg hempty]
        by_cases htyped : c.messages.filter isTyped = []
        · have hbroken : c.messages.filter Message.breaking ≠ [] := by
            intro hnil
            rw [htyped, hnil] at hempty
            exact hempty rfl
          simp [hcounted, hcounts, hbroken]
        · have hlisted := filter_or_filter_not isFix htyped
          rw [Entries.released_addAdded, Entries.released_addFixed]
          simp only [ne_eq, List.map_eq_nil_iff]
          rcases hlisted with hfix | hother
          · simp only [hcounted, hcounts, hfix, not_false_eq_true, or_true,
              true_or, and_self]
          · simp only [hcounted, hcounts, hother, not_false_eq_true, or_true,
              and_self]
    · rw [if_neg htype]
      have hnot : ¬ (IsFeature c ∨ IsFixed c) := by
        unfold IsFeature IsFixed
        rwa [or_assoc]
      have hreleased : ((e.warn (c.subject.number == 0)
          (noNumber c.subject)).addBreaking ((c.messages.filter
            Message.breaking).map fun m => formatEntry m.text c.subject.number
              repoUrl)).Released ↔ e.Released ∨ IsBreaking c := by
        rw [Entries.released_addBreaking, Entries.released_warn, ne_eq,
          List.map_eq_nil_iff, ← hbreaking]
      split_ifs
      · rw [Entries.released_addDevelopment, Entries.released_warn, hreleased]
        simp [hcounted, hnot]
      · rw [Entries.released_warn, hreleased]
        simp [hcounted, hnot]
  · rcases not_counted.mpr hcounted with hpre | htype
    · unfold addCommit
      dsimp only
      split_ifs <;> simp [hcounted]
    · unfold addCommit
      rw [if_pos htype]
      simp [hcounted]

/-- An entry is released for every commit that counts towards the level. -/
theorem getEntries_released (range : Range) (repoUrl : Text) :
    (getEntries range repoUrl).Released ↔ range.Has IsBreaking
      ∨ range.Has IsFeature ∨ range.Has IsFixed := by
  unfold getEntries
  rw [flag_foldl Entries.Released (addCommit_released repoUrl)]
  unfold Range.Has Entries.Released
  simp only [ne_eq, not_true_eq_false, false_or]
  constructor
  · rintro ⟨c, hc, hcounted, hbreaking | hfeature | hfixed⟩
    · exact Or.inl ⟨c, hc, hcounted, hbreaking⟩
    · exact Or.inr (Or.inl ⟨c, hc, hcounted, hfeature⟩)
    · exact Or.inr (Or.inr ⟨c, hc, hcounted, hfixed⟩)
  · rintro (⟨c, hc, hcounted, h⟩ | ⟨c, hc, hcounted, h⟩ | ⟨c, hc, hcounted, h⟩)
    · exact ⟨c, hc, hcounted, Or.inl h⟩
    · exact ⟨c, hc, hcounted, Or.inr (Or.inl h)⟩
    · exact ⟨c, hc, hcounted, Or.inr (Or.inr h)⟩

/-- There is no level exactly where nothing is released. -/
theorem getLevel_none_iff (range : Range) (repoUrl : Text) :
    getLevel range = .none ↔ ¬ (getEntries range repoUrl).Released := by
  rw [getLevel_eq, getEntries_released]

-- ================================================================= the runs

variable {git : Git} {today text : Text} {messages : PrMessages}
  {files : PrFiles} {range : Range}

theorem resolveRange_eq [Culture] {base resolved : Text}
    (h : resolveBase git base = .ok resolved) :
    resolveRange git base messages = getRange git resolved messages := by
  unfold resolveRange
  rw [h]

theorem Level.text_inj {l l' : Level} : l.text = l'.text ↔ l = l' := by
  cases l <;> cases l' <;> decide

/-- What `level` prints of a range. -/
theorem invokeLevelRun_ok [Culture] {base : Text} {level : Level}
    (hbase : testBaseArgument base = true)
    (h : resolveRange git base messages = .ok range) :
    invokeLevelRun git messages base = .ok ⟨[level.text], range.stderr⟩
      ↔ getLevel range = level := by
  unfold invokeLevelRun
  rw [h, hbase]
  show Except.ok (⟨[(getLevel range).text], range.stderr⟩ : Printed) = _ ↔ _
  simp only [Except.ok.injEq, Printed.mk.injEq, List.cons.injEq, and_true,
    Level.text_inj]

/-- `generate` gets to its check, with a range. -/
def GenerateChecks [Culture] (git : Git) (messages : PrMessages) (a : GenerateArgs)
    (text : Text) (range : Range) : Prop :=
  testArguments a = none ∧ ∃ base found, resolveBase git a.base = .ok base
    ∧ readChangelog git (lines text) (getPrefix base 12) a.repoUrl = .ok found
    ∧ getRange git base messages = .ok range

/-- `pr-body` gets to its check, with a range. -/
def PrBodyChecks [Culture] (git : Git) (messages : PrMessages) (a : PrBodyArgs)
    (text : Text) (range : Range) : Prop :=
  testPrBodyArguments a = none ∧ ∃ repo, getRepoUrl (lines text) a.repoUrl = .ok repo
    ∧ resolveRange git a.base messages = .ok range

theorem testBase_of_generate {a : GenerateArgs} (h : testArguments a = none) :
    testBaseArgument a.base = true := by
  unfold testArguments at h
  cases hbase : testBaseArgument a.base with
  | true => rfl
  | false => rw [hbase] at h; cases h

theorem testBase_of_prBody [Culture] {a : PrBodyArgs} (h : testPrBodyArguments a = none) :
    testBaseArgument a.base = true := by
  unfold testPrBodyArguments at h
  cases hbase : testBaseArgument a.base with
  | true => rfl
  | false => rw [hbase] at h; cases h

/-- The check of `generate` is about what is released. -/
theorem generate_nothing_iff [Culture] {a : GenerateArgs}
    (h : GenerateChecks git messages a text range) :
    invokeGenerateRun git today messages a text
        = .error (.stopped (nothingToRelease range.tag))
      ↔ getLevel range = .none := by
  obtain ⟨htest, base, ⟨repo, kept, ignored⟩, hbase, hread, hrange⟩ := h
  rw [getLevel_none_iff range repo, ← Entries.not_released_iff]
  unfold invokeGenerateRun generate readSection
  rw [htest, hbase]
  dsimp only
  rw [hread, hrange]
  dsimp only
  by_cases hnone : (getEntries range repo).breaking.length
      + (getEntries range repo).added.length
      + (getEntries range repo).fixed.length = 0
  · rw [if_pos hnone]
    exact iff_of_true rfl hnone
  · rw [if_neg hnone]
    exact iff_of_false nofun hnone

theorem nothingToRelease_starts (tag : Text) :
    "nothing to release since ".toList <+: nothingToRelease tag := by
  unfold nothingToRelease
  rw [List.append_assoc]
  exact List.prefix_append _ _

/-- How the errors of the next version start. -/
theorem getNextVersion_error [Culture] {level label e : Text} {latest : Version}
    (h : getNextVersion level label latest = .error e) :
    "nothing to release: ".toList <+: e ∨ "the next version ".toList <+: e := by
  unfold getNextVersion at h
  dsimp only at h
  split at h
  next =>
    cases h
    exact Or.inl (by decide)
  next =>
    split at h
    next =>
      cases h
      refine Or.inr ?_
      rw [List.append_assoc, List.append_assoc, List.append_assoc]
      exact List.prefix_append _ _
    next => cases h

theorem formatVersionPreview_error [Culture] {level label e tag : Text} {latest : Version}
    (h : formatVersionPreview level label latest = .error e) :
    e ≠ nothingToRelease tag := by
  unfold formatVersionPreview at h
  split at h
  next heq =>
    cases h
    rintro rfl
    have hstarts := nothingToRelease_starts tag
    rcases getNextVersion_error heq with hnone | hnext
    · exact absurd (List.prefix_or_prefix_of_prefix hnone hstarts) (by decide)
    · exact absurd (List.prefix_or_prefix_of_prefix hnext hstarts) (by decide)
  next => cases h

theorem prBody_nothing_iff [Culture] {a : PrBodyArgs}
    (h : PrBodyChecks git messages a text range) :
    invokePrBodyRun git messages files a text
        = .error (.stopped (nothingToRelease range.tag))
      ↔ getLevel range = .none := by
  obtain ⟨htest, repo, hrepo, hrange⟩ := h
  rw [getLevel_none_iff range repo, ← Entries.not_released_iff]
  unfold invokePrBodyRun prBody
  rw [htest, hrepo]
  dsimp only
  rw [hrange]
  dsimp only
  by_cases hnone : (getEntries range repo).breaking.length
      + (getEntries range repo).added.length
      + (getEntries range repo).fixed.length = 0
  · rw [if_pos hnone]
    exact iff_of_true rfl hnone
  · rw [if_neg hnone]
    refine iff_of_false ?_ hnone
    cases hpreview : formatVersionPreview (getLevel range).text a.label
        range.latest with
    | ok preview => exact nofun
    | error e =>
        intro heq
        rw [invokeGuarded, Except.error.injEq, Refusal.stopped.injEq] at heq
        exact formatVersionPreview_error hpreview heq

/-- `level` and the section classify the commits of every range alike:
there is no level exactly where no part but Development has an entry, and
otherwise the level is that of the greatest change. So the runs that write
a section stop with nothing to release where `level` prints none, and
there only. -/
theorem level_agrees [Culture] :
    (∀ (range : Range) (repoUrl : Text), getLevel range = .none
      ↔ (getEntries range repoUrl).breaking = []
        ∧ (getEntries range repoUrl).added = []
        ∧ (getEntries range repoUrl).fixed = [])
      ∧ (∀ range : Range, getLevel range ≠ .none →
        (getLevel range = .major
            ↔ range.Has IsBreaking ∧ 1 ≤ (ofLex range.latest).1)
          ∧ (getLevel range = .minor ↔ getLevel range ≠ .major
            ∧ (range.Has IsBreaking ∨ range.Has IsFeature))
          ∧ (getLevel range = .patch
            ↔ getLevel range ≠ .major ∧ getLevel range ≠ .minor))
      ∧ (∀ (git : Git) (today text : Text) (messages : PrMessages)
          (a : GenerateArgs) (range : Range),
        GenerateChecks git messages a text range →
          (invokeGenerateRun git today messages a text
              = .error (.stopped (nothingToRelease range.tag))
            ↔ invokeLevelRun git messages a.base
              = .ok ⟨[Level.none.text], range.stderr⟩))
      ∧ ∀ (git : Git) (text : Text) (messages : PrMessages) (files : PrFiles)
          (a : PrBodyArgs) (range : Range),
        PrBodyChecks git messages a text range →
          (invokePrBodyRun git messages files a text
              = .error (.stopped (nothingToRelease range.tag))
            ↔ invokeLevelRun git messages a.base
              = .ok ⟨[Level.none.text], range.stderr⟩) := by
  refine ⟨?_, ?_, ?_, ?_⟩
  · intro range repoUrl
    rw [getLevel_none_iff range repoUrl]
    unfold Entries.Released
    push Not
    rfl
  · intro range hlevel
    refine ⟨getLevel_eq range .major, ?_, ?_⟩
    · rw [Ne, getLevel_eq range .minor, getLevel_eq range .major]
    · cases h : getLevel range with
      | none => exact absurd h hlevel
      | major => decide
      | minor => decide
      | patch => decide
  · intro git today text messages a range h
    rw [generate_nothing_iff h]
    obtain ⟨htest, base, found, hbase, -, hrange⟩ := h
    exact (invokeLevelRun_ok (testBase_of_generate htest)
      ((resolveRange_eq hbase).trans hrange)).symm
  · intro git text messages files a range h
    rw [prBody_nothing_iff h]
    obtain ⟨htest, repo, -, hrange⟩ := h
    exact (invokeLevelRun_ok (testBase_of_prBody htest) hrange).symm

theorem exists_of_toBool {ε α : Type} {x : Except ε α} (h : x.toBool = true) :
    ∃ a, x = .ok a := by
  cases x with
  | ok a => exact ⟨a, rfl⟩
  | error e => cases h

open SoftHyphen

/-- Both runs get to the check over two fixes. -/
theorem level_agrees_fixes :
    ∃ range,
      GenerateChecks (fixes.gitWith releasedFile) (fun _ => none)
        ⟨shaOf 'b', [], []⟩ releasedFile range
      ∧ PrBodyChecks (fixes.gitWith releasedFile) (fun _ => none)
        ⟨shaOf 'b', [], []⟩ releasedFile range
      ∧ (invokeGenerateRun (fixes.gitWith releasedFile) "2024-05-01".toList
            (fun _ => none) ⟨shaOf 'b', [], []⟩ releasedFile
          = .error (.stopped (nothingToRelease range.tag))
        ↔ invokeLevelRun (fixes.gitWith releasedFile) (fun _ => none) (shaOf 'b')
          = .ok ⟨[Level.none.text], range.stderr⟩) := by
  have hbase : resolveBase (fixes.gitWith releasedFile) (shaOf 'b')
      = .ok (shaOf 'b') := if_pos (by decide)
  obtain ⟨range, hrange⟩ := exists_of_toBool
    (x := getRange (fixes.gitWith releasedFile) (shaOf 'b') fun _ => none)
    (by decide)
  obtain ⟨found, hfound⟩ := exists_of_toBool
    (x := readChangelog (fixes.gitWith releasedFile) (lines releasedFile)
      (getPrefix (shaOf 'b') 12) []) (by decide)
  obtain ⟨repo, hrepo⟩ := exists_of_toBool
    (x := getRepoUrl (lines releasedFile) []) (by decide)
  have hchecks : GenerateChecks (fixes.gitWith releasedFile) (fun _ => none)
      ⟨shaOf 'b', [], []⟩ releasedFile range :=
    ⟨by decide, _, found, hbase, hfound, hrange⟩
  exact ⟨range, hchecks, ⟨by decide, repo, hrepo,
    (resolveRange_eq hbase).trans hrange⟩,
    level_agrees.2.2.1 _ _ _ _ _ _ hchecks⟩

end RestifyCapl.Ci
