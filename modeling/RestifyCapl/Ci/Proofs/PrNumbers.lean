/-
The numbers that `prs` and `release-prs` print are all that the other runs
look up. Of two message maps that agree on the printed numbers, no run can
tell which one it was given: a commit whose number is not printed has no
messages, or stands before the cut-off, where none are read (`SameRead`).
And `pending-cut` finds data for every release commit it gets to.
-/
import RestifyCapl.Ci.Proofs.Levels

namespace RestifyCapl.Ci

open Lib

variable {git : Git} {messages₁ messages₂ : PrMessages} {base : Text}

-- ================================================================== numbers

/-- What a run printed, if it did not refuse. -/
def stdoutOf : Except Refusal Printed → List Text
  | .ok printed => printed.stdout
  | .error _ => []

theorem mem_prNumbers {range : Range} {n : Nat} :
    n ∈ prNumbers range ↔ ∃ c ∈ range.commits, isListed c = true
      ∧ c.subject.number = n := by
  unfold prNumbers sortUnique
  rw [List.mem_insertionSort, List.mem_dedup]
  simp only [List.mem_map, List.mem_filter, and_assoc]

-- ================================================================== commits

/-- The same commit, but for messages that are not read. -/
def SameRead (c₁ c₂ : RangeCommit) : Prop :=
  c₁ = c₂ ∨ c₁.pre = true ∧ c₂ = { c₁ with messages := c₂.messages }

theorem SameRead.raise {c₁ c₂ : RangeCommit} (h : SameRead c₁ c₂) (r : Raised) :
    raise r c₁ = raise r c₂ := by
  rcases h with rfl | ⟨hpre, hsame⟩
  · rfl
  · have hpre₂ : c₂.pre = true := by rw [hsame]; exact hpre
    unfold Ci.raise
    rw [if_pos (Or.inl hpre), if_pos (Or.inl hpre₂)]

theorem SameRead.addCommit {c₁ c₂ : RangeCommit} (h : SameRead c₁ c₂)
    (repoUrl : Text) (e : Entries) :
    addCommit repoUrl e c₁ = addCommit repoUrl e c₂ := by
  rcases h with rfl | ⟨hpre, hsame⟩
  · rfl
  · have hpre₂ : c₂.pre = true := by rw [hsame]; exact hpre
    have hsubject : c₂.subject = c₁.subject := by rw [hsame]
    unfold Ci.addCommit
    dsimp only
    rw [if_pos hpre, if_pos hpre₂, hsubject]

theorem SameRead.exportsWarning [Culture] {c₁ c₂ : RangeCommit} (h : SameRead c₁ c₂)
    (files : PrFiles) : exportsWarning files c₁ = exportsWarning files c₂ := by
  rcases h with rfl | ⟨hpre, hsame⟩
  · rfl
  · rw [hsame]
    rfl

/-- The messages agree wherever they are looked up and read. -/
def AgreeOn (numbers : List Text) (messages₁ messages₂ : PrMessages) : Prop :=
  ∀ n ∈ numbers, messages₁ n = messages₂ n

theorem rangeCommit_sameRead [Culture] {before : List Text} {e : LogEntry}
    (h : isListed (rangeCommit before (fun _ => none) e) = true →
      messages₁ (format (readSubject e.subject).number)
        = messages₂ (format (readSubject e.subject).number)) :
    SameRead (rangeCommit before messages₁ e) (rangeCommit before messages₂ e) := by
  by_cases hpre : e.sha ∈ before
  · exact Or.inr ⟨decide_eq_true hpre, rfl⟩
  · left
    unfold rangeCommit messagesOf
    dsimp only
    by_cases hread : (readSubject e.subject).number > 0
        ∧ (readSubject e.subject).type ≠ .release
    · rw [if_pos hread, if_pos hread, h]
      unfold isListed rangeCommit
      simp [hpre, hread.1, hread.2]
    · rw [if_neg hread, if_neg hread]

-- =================================================================== ranges

/-- The same range, but for messages that are not read. -/
structure SameRange (range₁ range₂ : Range) : Prop where
  latest : range₁.latest = range₂.latest
  tag : range₁.tag = range₂.tag
  stderr : range₁.stderr = range₂.stderr
  commits : List.Forall₂ SameRead range₁.commits range₂.commits

namespace SameRange

variable {range₁ range₂ : Range}

/-- What a fold makes of the commits. -/
theorem foldl {σ : Type} (h : SameRange range₁ range₂)
    {step : σ → RangeCommit → σ}
    (hstep : ∀ {c₁ c₂}, SameRead c₁ c₂ → ∀ s, step s c₁ = step s c₂) (s : σ) :
    range₁.commits.foldl step s = range₂.commits.foldl step s := by
  have hcommits := h.commits
  generalize range₁.commits = commits₁ at hcommits ⊢
  generalize range₂.commits = commits₂ at hcommits ⊢
  induction hcommits generalizing s with
  | nil => rfl
  | cons hc _ ih => rw [List.foldl_cons, List.foldl_cons, hstep hc, ih]

theorem getLevel (h : SameRange range₁ range₂) :
    getLevel range₁ = getLevel range₂ := by
  unfold Ci.getLevel
  rw [h.foldl fun hc r => hc.raise r, h.latest]

theorem getEntries (h : SameRange range₁ range₂) (repoUrl : Text) :
    getEntries range₁ repoUrl = getEntries range₂ repoUrl := by
  unfold Ci.getEntries
  rw [h.foldl fun hc e => hc.addCommit repoUrl e]

theorem bodyWarnings [Culture] (h : SameRange range₁ range₂) (files : PrFiles)
    (e : Entries) : bodyWarnings files range₁ e = bodyWarnings files range₂ e := by
  unfold Ci.bodyWarnings
  congr 1
  have hcommits := h.commits
  generalize range₁.commits = commits₁ at hcommits ⊢
  generalize range₂.commits = commits₂ at hcommits ⊢
  induction hcommits with
  | nil => rfl
  | cons hc _ ih =>
      rw [List.filterMap_cons, List.filterMap_cons, hc.exportsWarning, ih]

end SameRange

/-- Two results that a run cannot tell apart. -/
inductive SameResult {α : Type} (R : α → α → Prop) :
    Except Text α → Except Text α → Prop where
  | error (e : Text) : SameResult R (.error e) (.error e)
  | ok {a₁ a₂ : α} (h : R a₁ a₂) : SameResult R (.ok a₁) (.ok a₂)

/-- The ranges differ in nothing that is read. -/
theorem getRange_same [Culture] {resolved : Text}
    (h : ∀ range, getRange git resolved (fun _ => none) = .ok range →
      AgreeOn ((prNumbers range).map format) messages₁ messages₂) :
    SameResult SameRange (getRange git resolved messages₁)
      (getRange git resolved messages₂) := by
  unfold getRange at h ⊢
  cases hlog : getRangeLog git resolved with
  | error e => exact .error e
  | ok log =>
      cases hout : getGitOutput git listBefore with
      | error e => exact .error e
      | ok out =>
          simp only [hlog, hout, Except.ok.injEq, forall_eq'] at h
          refine .ok ⟨rfl, rfl, rfl, ?_⟩
          rw [List.forall₂_map_left_iff, List.forall₂_map_right_iff,
            List.forall₂_same]
          intro e he
          apply rangeCommit_sameRead
          intro hlisted
          apply h
          refine List.mem_map_of_mem (mem_prNumbers.mpr ⟨_, ?_, hlisted, rfl⟩)
          exact List.mem_map_of_mem he

theorem resolveRange_same [Culture] (hbase : testBaseArgument base = true)
    (h : AgreeOn (stdoutOf (invokePrsRun git base)) messages₁ messages₂) :
    SameResult SameRange (resolveRange git base messages₁)
      (resolveRange git base messages₂) := by
  unfold invokePrsRun at h
  rw [hbase] at h
  unfold resolveRange at h ⊢
  cases hresolved : resolveBase git base with
  | error e => exact .error e
  | ok resolved =>
      apply getRange_same
      intro range hrange
      rw [hresolved] at h
      dsimp only at h
      rw [hrange] at h
      exact h

-- ===================================================================== runs

/-- The warnings that `generate` and `pr-body` print before they check
whether there is anything to release. -/
def printedWarnings [Culture] (git : Git) (messages : PrMessages) (files : PrFiles)
    (base repo : Text) : List Text :=
  if !testBaseArgument base then []
  else
    match resolveRange git base messages with
    | .error _ => []
    | .ok range => bodyWarnings files range (getEntries range repo)

theorem level_same [Culture]
    (h : AgreeOn (stdoutOf (invokePrsRun git base)) messages₁ messages₂) :
    invokeLevelRun git messages₁ base = invokeLevelRun git messages₂ base := by
  unfold invokeLevelRun
  cases hbase : testBaseArgument base with
  | false => rfl
  | true =>
      have hsame := resolveRange_same hbase h
      generalize resolveRange git base messages₁ = r₁ at hsame ⊢
      generalize resolveRange git base messages₂ = r₂ at hsame ⊢
      rcases hsame with e | ⟨hsame⟩
      · rfl
      · dsimp only
        rw [hsame.getLevel, hsame.stderr]

theorem readSection_same [Culture] {resolved repo heading : Text}
    (h : SameResult SameRange (getRange git resolved messages₁)
      (getRange git resolved messages₂)) :
    readSection git resolved messages₁ repo heading
      = readSection git resolved messages₂ repo heading := by
  unfold readSection
  generalize getRange git resolved messages₁ = r₁ at h ⊢
  generalize getRange git resolved messages₂ = r₂ at h ⊢
  rcases h with e | ⟨hsame⟩
  · rfl
  · dsimp only
    rw [hsame.getEntries, hsame.stderr, hsame.tag]

theorem generate_same [Culture] {today date repoUrl text : Text}
    (h : AgreeOn (stdoutOf (invokePrsRun git base)) messages₁ messages₂) :
    invokeGenerateRun git today messages₁ ⟨base, date, repoUrl⟩ text
      = invokeGenerateRun git today messages₂ ⟨base, date, repoUrl⟩ text := by
  unfold invokeGenerateRun
  cases htest : testArguments ⟨base, date, repoUrl⟩ with
  | some message => rfl
  | none =>
      have hsame := resolveRange_same (testBase_of_generate htest) h
      unfold generate
      cases hresolved : resolveBase git base with
      | error e => rfl
      | ok resolved =>
          rw [resolveRange_eq hresolved, resolveRange_eq hresolved] at hsame
          simp only [readSection_same hsame]

theorem prBody_same [Culture] {files : PrFiles} {repoUrl label text : Text}
    (h : AgreeOn (stdoutOf (invokePrsRun git base)) messages₁ messages₂) :
    invokePrBodyRun git messages₁ files ⟨base, repoUrl, label⟩ text
      = invokePrBodyRun git messages₂ files ⟨base, repoUrl, label⟩ text := by
  unfold invokePrBodyRun
  cases htest : testPrBodyArguments ⟨base, repoUrl, label⟩ with
  | some message => rfl
  | none =>
      unfold prBody
      cases getRepoUrl (lines text) repoUrl with
      | error e => rfl
      | ok repo =>
          have hsame := resolveRange_same (testBase_of_prBody htest) h
          dsimp only
          generalize resolveRange git base messages₁ = r₁ at hsame ⊢
          generalize resolveRange git base messages₂ = r₂ at hsame ⊢
          rcases hsame with e | ⟨hsame⟩
          · rfl
          · dsimp only
            rw [hsame.getEntries, hsame.bodyWarnings, hsame.getLevel,
              hsame.latest, hsame.tag, hsame.stderr]

theorem printedWarnings_same [Culture] {files : PrFiles} {repo : Text}
    (h : AgreeOn (stdoutOf (invokePrsRun git base)) messages₁ messages₂) :
    printedWarnings git messages₁ files base repo
      = printedWarnings git messages₂ files base repo := by
  unfold printedWarnings
  cases hbase : testBaseArgument base with
  | false => rfl
  | true =>
      have hsame := resolveRange_same hbase h
      generalize resolveRange git base messages₁ = r₁ at hsame ⊢
      generalize resolveRange git base messages₂ = r₂ at hsame ⊢
      rcases hsame with e | ⟨hsame⟩
      · rfl
      · dsimp only
        rw [hsame.getEntries, hsame.bodyWarnings]

-- ============================================================== pending-cut

/-- The error for a release commit without pull-request data. -/
def IsMissingData (e : Text) : Prop :=
  "no pull request data for #".toList <+: e

theorem not_missingData {e opening : Text} (h : opening <+: e)
    (hdiffer : ¬ (opening <+: "no pull request data for #".toList
      ∨ "no pull request data for #".toList <+: opening)) :
    ¬ IsMissingData e :=
  fun hmissing => hdiffer (List.prefix_or_prefix_of_prefix h hmissing)

theorem getGitOutput_error {args : List Text} {e : Text}
    (h : getGitOutput git args = .error e) : ¬ IsMissingData e := by
  unfold getGitOutput at h
  dsimp only at h
  split at h
  next =>
    cases h
    have hstarts : ∀ rest, ¬ IsMissingData ("git ".toList ++ rest) := fun _ =>
      not_missingData (List.prefix_append _ _) (by decide)
    rw [List.append_assoc, List.append_assoc]
    exact hstarts _
  next => cases h

theorem getLastVersion_error {e : Text} (h : getLastVersion git = .error e) :
    ¬ IsMissingData e := by
  unfold getLastVersion at h
  split at h
  next hout =>
    cases h
    exact getGitOutput_error hout
  next =>
    split at h
    next =>
      cases h
      exact not_missingData List.prefix_rfl (by decide)
    next => cases h

theorem readRow_error {raw e : Text} (h : readRow raw = .error e) :
    ¬ IsMissingData e := by
  unfold readRow at h
  dsimp only at h
  split at h
  next =>
    cases h
    exact not_missingData (List.prefix_append _ _) (by decide)
  next => cases h

theorem getRangeLog_error [Culture] {e : Text} (h : getRangeLog git base = .error e) :
    ¬ IsMissingData e := by
  unfold getRangeLog at h
  split at h
  next hlast =>
    cases h
    exact getLastVersion_error hlast
  next =>
    dsimp only at h
    split at h
    next hout =>
      cases h
      exact getGitOutput_error hout
    next =>
      split at h
      next hrows =>
        cases h
        obtain ⟨raw, -, hrow⟩ := exists_of_mapM_error hrows
        exact readRow_error hrow
      next => cases h

theorem resolveBase_error {e : Text} (h : resolveBase git base = .error e) :
    ¬ IsMissingData e := by
  unfold resolveBase at h
  split at h
  next => cases h
  next =>
    split at h
    next hout =>
      cases h
      exact getGitOutput_error hout
    next =>
      split at h
      next => cases h
      next =>
        cases h
        exact not_missingData (List.prefix_append _ _) (by decide)

theorem testFaithful_error [Culture] {entry : PrEntry} {sha e : Text}
    (h : testFaithfulReleaseCommit git entry sha = .error e) :
    ¬ IsMissingData e := by
  unfold testFaithfulReleaseCommit at h
  split at h
  next hout =>
    cases h
    exact getGitOutput_error hout
  next =>
    split at h
    next => split at h <;> cases h
    next => cases h

theorem mem_unseen {seen : List Text} {candidates : List Candidate}
    {c : Candidate} (hc : c ∈ candidates) (hseen : c.number ∉ seen) :
    c.number ∈ unseen seen candidates := by
  induction candidates generalizing seen with
  | nil => cases hc
  | cons d rest ih =>
      unfold unseen
      rcases List.mem_cons.mp hc with rfl | hrest
      · rw [if_neg hseen]
        exact List.mem_cons_self
      · split
        next => exact ih hrest hseen
        next =>
          by_cases hsame : c.number = d.number
          · rw [hsame]
            exact List.mem_cons_self
          · exact List.mem_cons_of_mem _ (ih hrest (by simp [hsame, hseen]))

/-- The loop only gets to release commits that have data. -/
theorem pendingCutLoop_error [Culture] {releases : PrReleases} {tip e : Text}
    {stderr : List Text} {candidates : List Candidate}
    (hdata : ∀ c ∈ candidates, releases c.number ≠ none)
    (h : pendingCutLoop git releases tip stderr candidates = .error e) :
    ¬ IsMissingData e := by
  induction candidates with
  | nil => cases h
  | cons c rest ih =>
      obtain ⟨hc, hrest⟩ := List.forall_mem_cons.mp hdata
      unfold pendingCutLoop at h
      split at h
      next hnone => exact absurd hnone hc
      next =>
        split at h
        next => exact ih hrest h
        next =>
          split at h
          next hfaithful =>
            cases h
            exact testFaithful_error hfaithful
          next =>
            dsimp only at h
            split at h
            next => cases h
            next => split at h <;> cases h

/-- What `origin/main` resolves to is a hash. -/
theorem reBase_of_resolve {resolved : Text}
    (h : resolveBase git [] = .ok resolved) : reBase resolved = true := by
  unfold resolveBase at h
  rw [if_neg (not_not.mpr rfl)] at h
  split at h
  next => cases h
  next =>
    split at h
    next hbase =>
      cases h
      exact hbase
    next => cases h

theorem testBase_of_resolve (h : resolveBase git base = resolveBase git []) :
    testBaseArgument base = true := by
  unfold testBaseArgument
  by_cases hempty : base = []
  · rw [hempty]
    rfl
  · have hbase : resolveBase git base = .ok base := if_pos hempty
    rw [reBase_of_resolve (h.symm.trans hbase), Bool.or_true]

/-- `pending-cut` does not miss data, where all the numbers have some that
`release-prs` prints for the base of `pending-cut`. -/
theorem pendingCut_error [Culture] {releases : PrReleases} {e : Text}
    (hsame : resolveBase git base = resolveBase git [])
    (hdata : ∀ n ∈ stdoutOf (invokeReleasePrsRun git base), releases n ≠ none)
    (h : pendingCut git releases = .error e) : ¬ IsMissingData e := by
  unfold pendingCut at h
  cases hresolved : resolveBase git [] with
  | error e' =>
      rw [hresolved] at h
      cases h
      exact resolveBase_error hresolved
  | ok tip =>
      rw [hresolved] at h
      dsimp only at h
      unfold invokeReleasePrsRun at hdata
      rw [testBase_of_resolve hsame, hsame, hresolved] at hdata
      cases hcandidates : getReleaseCandidates git tip with
      | error e' =>
          rw [hcandidates] at h
          cases h
          unfold getReleaseCandidates at hcandidates
          split at hcandidates
          next hlog =>
            cases hcandidates
            exact getRangeLog_error hlog
          next => cases hcandidates
      | ok found =>
          rw [hcandidates] at h
          refine pendingCutLoop_error (fun c hc => ?_) h
          apply hdata
          dsimp only
          rw [hcandidates]
          exact mem_unseen hc List.not_mem_nil

/-- The numbers that `prs` prints are all that is read of the messages: of
two maps that agree on them, the same level, file, section, description
and warnings come out. And the numbers that `release-prs` prints are all
that `pending-cut` needs data for. -/
theorem prs_names_read [Culture] (git : Git) (base : Text) :
    (∀ messages₁ messages₂ : PrMessages,
      AgreeOn (stdoutOf (invokePrsRun git base)) messages₁ messages₂ →
        invokeLevelRun git messages₁ base = invokeLevelRun git messages₂ base
        ∧ (∀ today date repoUrl text : Text,
          invokeGenerateRun git today messages₁ ⟨base, date, repoUrl⟩ text
            = invokeGenerateRun git today messages₂ ⟨base, date, repoUrl⟩ text)
        ∧ (∀ (files : PrFiles) (repoUrl label text : Text),
          invokePrBodyRun git messages₁ files ⟨base, repoUrl, label⟩ text
            = invokePrBodyRun git messages₂ files ⟨base, repoUrl, label⟩ text)
        ∧ ∀ (files : PrFiles) (repo : Text),
          printedWarnings git messages₁ files base repo
            = printedWarnings git messages₂ files base repo)
      ∧ ∀ releases : PrReleases,
        resolveBase git base = resolveBase git [] →
        (∀ n ∈ stdoutOf (invokeReleasePrsRun git base), releases n ≠ none) →
          ∀ e, pendingCut git releases = .error e → ¬ IsMissingData e :=
  ⟨fun _ _ h => ⟨level_same h, fun _ _ _ _ => generate_same h,
      fun _ _ _ _ => prBody_same h, fun _ _ => printedWarnings_same h⟩,
    fun _ hsame hdata _ => pendingCut_error hsame hdata⟩

open SoftHyphen

/-- A map that has a message for a number that is in no subject. -/
def strayMessages : PrMessages := fun n =>
  if n = "9".toList then some ["feat: nothing".toList] else none

theorem prs_names_read_fixes :
    stdoutOf (invokePrsRun (fixes.gitWith []) []) = ["3".toList, "4".toList]
      ∧ AgreeOn (stdoutOf (invokePrsRun (fixes.gitWith []) []))
        strayMessages (fun _ => none)
      ∧ invokeLevelRun (fixes.gitWith []) strayMessages []
        = invokeLevelRun (fixes.gitWith []) (fun _ => none) [] := by
  have hprinted : stdoutOf (invokePrsRun (fixes.gitWith []) [])
      = ["3".toList, "4".toList] := by decide
  have hagree : AgreeOn (stdoutOf (invokePrsRun (fixes.gitWith []) []))
      strayMessages (fun _ => none) := by
    rw [hprinted]
    intro n hn
    rcases List.mem_cons.mp hn with rfl | hn
    · rfl
    · rw [List.mem_singleton.mp hn]
      rfl
  exact ⟨hprinted, hagree,
    ((prs_names_read (fixes.gitWith []) []).1 _ _ hagree).1⟩

end RestifyCapl.Ci
