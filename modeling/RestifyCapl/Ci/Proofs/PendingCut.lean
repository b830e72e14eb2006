/-
The release bot and the tagging bot agree. `pending-cut` prints `waiting`
for a release commit at the tip exactly when `release-commit` on the tip
prints `tag`, so that no second release is cut over one that is about to
be tagged (`pending_cut_agrees`).

Base layer: what the two runs read of a repository (`getLastVersion_iff`,
`getRangeLog_serves`), and where the tip stands in the range
(`range_tip`, `range_ne_tip`). The checks on the pull request are the
same functions in both runs, so nothing has to be known of them. Where
the trimming of git's output loses something, `pending-cut` stops with an
error and the two part; so they do where a tag on the tip is taken for the
last tag, which it only compares equal to (`bots_disagree`).
-/
import RestifyCapl.Ci.Proofs.HighestTag
import RestifyCapl.Ci.Proofs.Printed
import RestifyCapl.Ci.Release

namespace RestifyCapl.Ci

variable {git : Git} {repo : Repository} {releases : PrReleases}

/-- A run that prints one line. -/
def Prints (line : Text) (run : Except Text Printed) : Prop :=
  ∃ stderr, run = .ok ⟨[line], stderr⟩

-- ================================================================ the range

namespace Repository

/-- The tag of the last version. -/
def LastTag (repo : Repository) (tag : TagRef Text) : Prop :=
  tag ∈ repo.tags ∧ HighestValid (tagList repo.tags) tag.name

/-- The commits since a tag, newest first. -/
def since (repo : Repository) (tag : TagRef Text) : List Commit :=
  repo.range tag.commit repo.tip

end Repository

theorem firstParents_sublist (commits : List Commit) (next : Option Text) :
    (firstParents commits next).Sublist commits := by
  induction commits generalizing next with
  | nil => exact List.Sublist.slnil
  | cons c rest ih =>
      unfold firstParents
      split
      · exact (ih _).cons_cons c
      · exact (ih _).cons c

theorem firstParents_head {commits : List Commit} {sha : Text}
    (h : sha ∈ commits.map Commit.sha) :
    ∃ c rest, firstParents commits (some sha) = c :: rest ∧ c.sha = sha := by
  induction commits with
  | nil => cases h
  | cons c rest ih =>
      unfold firstParents
      by_cases hc : some sha = some c.sha
      · rw [if_pos hc]
        injection hc with hc
        exact ⟨c, _, rfl, hc.symm⟩
      · rw [if_neg hc]
        rcases List.mem_cons.mp h with heq | hmem
        · exact absurd (congrArg some heq) hc
        · exact ih hmem

theorem reachable_seed {commits : List Commit} {seeds : List Text} {sha : Text}
    (hseed : sha ∈ seeds) (h : sha ∈ commits.map Commit.sha) :
    sha ∈ reachable commits seeds := by
  induction commits generalizing seeds with
  | nil => cases h
  | cons c rest ih =>
      unfold reachable
      rcases List.mem_cons.mp h with rfl | hmem
      · rw [if_pos hseed]
        exact List.mem_cons_self
      · split
        · exact List.mem_cons_of_mem _
            (ih (List.mem_append_right _ hseed) hmem)
        · exact ih hseed hmem

theorem mem_range {excluded sha : Text} {c : Commit}
    (h : c ∈ repo.range excluded sha) :
    c ∈ repo.commits ∧ ¬ repo.IsAncestor c.sha excluded := by
  unfold Repository.range at h
  rw [List.mem_filter, decide_eq_true_eq] at h
  exact ⟨(firstParents_sublist _ _).subset h.1, h.2⟩

/-- An ancestor of what is excluded is not in the range. -/
theorem range_ne_tip {excluded : Text}
    (hancestor : repo.IsAncestor repo.tip excluded) :
    ∀ c ∈ repo.range excluded repo.tip, c.sha ≠ repo.tip := by
  intro c hc heq
  rw [← heq] at hancestor
  exact (mem_range hc).2 hancestor

/-- Otherwise the tip is the newest in it, once. -/
theorem range_tip {excluded : Text}
    (hancestor : ¬ repo.IsAncestor repo.tip excluded) :
    ∃ c rest, repo.range excluded repo.tip = c :: rest ∧ c.sha = repo.tip
      ∧ ∀ c' ∈ rest, c'.sha ≠ repo.tip := by
  obtain ⟨c, chain, hchain, hc⟩ := firstParents_head repo.tipHeld
  have hdistinct : ((c :: chain).map Commit.sha).Nodup := by
    rw [← hchain]
    exact repo.distinct.sublist ((firstParents_sublist _ _).map _)
  rw [List.map_cons, List.nodup_cons] at hdistinct
  refine ⟨c, chain.filter fun c =>
    decide (c.sha ∉ reachable repo.commits [excluded]), ?_, hc, ?_⟩
  · unfold Repository.range
    rw [hchain, List.filter_cons_of_pos]
    rw [hc]
    exact decide_eq_true hancestor
  · intro c' hc' heq
    apply hdistinct.1
    rw [hc, ← heq]
    exact List.mem_map_of_mem (List.mem_of_mem_filter hc')

-- ================================================================= reading

theorem getGitOutput_success {args : List Text} {out : Text}
    (h : git args = success out) : getGitOutput git args = .ok (trim out) := by
  unfold getGitOutput
  rw [h]
  rfl

theorem trimmed_starts {t : Text} (h : Trimmed t) (hne : t ≠ []) :
    StartsClean t := by
  obtain ⟨c, rest, rfl⟩ := List.exists_cons_of_ne_nil hne
  exact ⟨c, rfl, h.first c rfl⟩

theorem trimmed_ends {t : Text} (h : Trimmed t) (hne : t ≠ []) :
    EndsClean t :=
  ⟨t.getLast hne, List.getLast?_eq_getLast_of_ne_nil hne,
    h.last _ (List.getLast?_eq_getLast_of_ne_nil hne)⟩

/-- Names of tags come back from what git prints of them. -/
theorem splitWords_names {names : List Text}
    (hwords : ∀ n ∈ names, IsWord n)
    (htrimmed : ∀ n ∈ names, Trimmed n) :
    splitWords (trim (printLines names)) = names := by
  rw [trim_printLines, splitWords_joinLines hwords]
  · intro n hn
    have hmem := List.mem_of_mem_head? hn
    exact trimmed_starts (htrimmed n hmem) (hwords n hmem).1
  · intro n hn
    have hmem := List.mem_of_mem_getLast? hn
    exact trimmed_ends (htrimmed n hmem) (hwords n hmem).1

/-- `Get-LastVersion` finds the version of the last tag. -/
theorem getLastVersion_iff (hgit : git.Serves repo)
    (htags : ∀ t ∈ repo.tags, Trimmed t.name) {v : Version}
    {stderr : List Text} :
    getLastVersion git = .ok (v, stderr)
      ↔ getLatestVersion (tagList repo.tags) = (some v, stderr) := by
  have hnames : namesRead repo.tags = tagList repo.tags := by
    apply splitWords_names
    · intro n hn
      obtain ⟨t, ht, rfl⟩ := List.mem_map.mp hn
      exact repo.tagWords t ht
    · intro n hn
      obtain ⟨t, ht, rfl⟩ := List.mem_map.mp hn
      exact htags t ht
  rw [getLastVersion_ok_iff hgit.tags, hnames]

theorem lastTag_of_latest {v : Version} {stderr : List Text}
    (h : getLatestVersion (tagList repo.tags) = (some v, stderr)) :
    ∃ tag, repo.LastTag tag ∧ tag.name = tagName v := by
  have hvalid : HighestValid (tagList repo.tags) (tagName v) := by
    rw [← latest_iff, h]
    rfl
  obtain ⟨tag, htag, hname⟩ := List.mem_map.mp hvalid.1
  exact ⟨tag, ⟨htag, hname ▸ hvalid⟩, hname⟩

theorem latest_of_lastTag {tag : TagRef Text} (h : repo.LastTag tag) :
    ∃ v stderr, getLatestVersion (tagList repo.tags) = (some v, stderr)
      ∧ tag.name = tagName v := by
  obtain ⟨v, hv, hname⟩ := Option.map_eq_some_iff.mp (latest_iff.mpr h.2)
  exact ⟨v, _, Prod.ext hv rfl, hname.symm⟩

theorem LastTag_unique {tag tag' : TagRef Text} (h : repo.LastTag tag)
    (h' : repo.LastTag tag') : tag = tag' :=
  List.inj_on_of_nodup_map repo.tagsDistinct h.1 h'.1 (h.2.unique h'.2)

-- =========================================================== the range read

/-- A row of the log is read as its commit. -/
theorem readRow_row {c : Commit} (hsha : IsSha c.sha)
    (hsubject : Trimmed c.subject) :
    readRow c.row = .ok ⟨c.sha, c.subject⟩ := by
  have htab : c.row.idxOf '\t' = c.sha.length := by
    unfold Commit.row
    rw [List.idxOf_append_of_notMem (not_mem_of_isSha hsha (by decide))]
    simp
  have hend : trimEndCr c.row = c.row := by
    unfold trimEndCr
    rw [List.rdropWhile_eq_self_iff]
    intro hne hcr
    have hlast : c.row.getLast? = some '\r' := by
      rw [List.getLast?_eq_getLast_of_ne_nil hne, eq_of_beq hcr]
    unfold Commit.row at hlast
    rw [List.getLast?_append_cons, List.getLast?_cons] at hlast
    cases hsub : c.subject.getLast? with
    | none =>
        rw [hsub] at hlast
        exact absurd hlast (by decide)
    | some d =>
        rw [hsub, Option.getD_some, Option.some.injEq] at hlast
        have hclean := hsubject.last d hsub
        rw [hlast] at hclean
        exact absurd hclean (by decide)
  have hlength : c.row.length = c.sha.length + (c.subject.length + 1) := by
    simp [Commit.row]
  unfold readRow
  rw [hend]
  dsimp only
  rw [htab, if_neg (by rw [hlength, hsha.1]; omega)]
  simp [Commit.row]

theorem mapM_readRow {commits : List Commit}
    (hshas : ∀ c ∈ commits, IsSha c.sha)
    (hsubjects : ∀ c ∈ commits, Trimmed c.subject) :
    (commits.map Commit.row).mapM readRow
      = .ok (commits.map fun c => ⟨c.sha, c.subject⟩) := by
  induction commits with
  | nil => rfl
  | cons c commits ih =>
      obtain ⟨hsha, hshas⟩ := List.forall_mem_cons.mp hshas
      obtain ⟨hsubject, hsubjects⟩ := List.forall_mem_cons.mp hsubjects
      rw [List.map_cons, List.mapM_cons, readRow_row hsha hsubject,
        ih hshas hsubjects]
      rfl

/-- The log of a range comes back: the oldest row, which is printed last,
has to end with a subject. -/
theorem lines_rows {commits : List Commit} (hne : commits ≠ [])
    (hshas : ∀ c ∈ commits, IsSha c.sha)
    (honeLine : ∀ c ∈ commits, '\n' ∉ c.subject)
    (hsubjects : ∀ c ∈ commits, Trimmed c.subject)
    (holdest : ∀ c ∈ commits.getLast?, c.subject ≠ []) :
    lines (trim (printLines (commits.map Commit.row)))
      = commits.map Commit.row := by
  apply lines_trim_printLines (by simpa using hne)
  · intro row hrow
    rw [List.head?_map] at hrow
    obtain ⟨c, hc, rfl⟩ := Option.map_eq_some_iff.mp hrow
    have hsha := hshas c (List.mem_of_mem_head? hc)
    obtain ⟨d, hd, hclean⟩ := trimmed_starts (isSha_trimmed hsha)
      (sha_ne_nil hsha)
    refine ⟨d, ?_, hclean⟩
    unfold Commit.row
    rw [List.head?_append, hd]
    rfl
  · intro row hrow
    rw [List.getLast?_map] at hrow
    obtain ⟨c, hc, rfl⟩ := Option.map_eq_some_iff.mp hrow
    obtain ⟨d, hd, hclean⟩ := trimmed_ends
      (hsubjects c (List.mem_of_mem_getLast? hc)) (holdest c hc)
    refine ⟨d, ?_, hclean⟩
    unfold Commit.row
    rw [List.getLast?_append_cons, List.getLast?_cons, hd]
    rfl
  · intro row hrow
    obtain ⟨c, hc, rfl⟩ := List.mem_map.mp hrow
    have hsha := not_mem_of_isSha (hshas c hc) (c := '\n') (by decide)
    simp [Commit.row, hsha, honeLine c hc]

section Culture

variable [Culture]

/-- A text that begins with a hash is not taken for the empty one. -/
theorem not_isEmptyText_sha {sha : Text} (hsha : IsSha sha) (rest : Text) :
    isEmptyText (sha ++ rest) = false := by
  obtain ⟨c, more, rfl⟩ := List.exists_cons_of_ne_nil (sha_ne_nil hsha)
  exact isEmptyText_cons (isPlain_hex (hsha.2 c List.mem_cons_self)) _

/-- Hashes are the same exactly where they compare equal. -/
theorem ceq_sha {sha other : Text} (hsha : IsSha sha) (hother : IsSha other) :
    ceq sha other = true ↔ sha = other := by
  apply ceq_iff
  · exact List.all_eq_true.mpr fun c hc => isPlain_hex (hsha.2 c hc)
  · exact List.all_eq_true.mpr fun c hc => isPlain_hex (hother.2 c hc)

/-- `Get-RangeLog` reads the range since the last tag. -/
theorem getRangeLog_serves (hgit : git.Serves repo)
    (htags : ∀ t ∈ repo.tags, Trimmed t.name)
    (hsubjects : ∀ c ∈ repo.commits, Trimmed c.subject)
    {tag : TagRef Text} (htag : repo.LastTag tag)
    (holdest : ∀ c ∈ (repo.since tag).getLast?, c.subject ≠ []) :
    ∃ log, getRangeLog git repo.tip = .ok log
      ∧ log.entries = (repo.since tag).map fun c => ⟨c.sha, c.subject⟩ := by
  obtain ⟨v, stderr, hlatest, hname⟩ := latest_of_lastTag htag
  obtain ⟨tip, htip, htipSha⟩ := List.mem_map.mp repo.tipHeld
  have hlog : getGitOutput git (logRange (tagName v) repo.tip)
      = .ok (trim (printLines ((repo.since tag).map Commit.row))) := by
    rw [← hname, ← htipSha]
    apply getGitOutput_success
    rw [hgit.range tag htag.1 tip htip, htipSha]
    rfl
  have hin : ∀ c ∈ repo.since tag, c ∈ repo.commits :=
    fun c hc => (mem_range hc).1
  have hread := mapM_readRow (fun c hc => repo.shas c (hin c hc))
    fun c hc => hsubjects c (hin c hc)
  unfold getRangeLog
  rw [(getLastVersion_iff hgit htags).mpr hlatest]
  dsimp only
  rw [hlog]
  dsimp only
  by_cases hempty : repo.since tag = []
  · have hnil : isEmptyText
        (trim (printLines (([] : List Commit).map Commit.row))) = true :=
      isEmptyText_nil
    rw [hempty, if_pos hnil]
    exact ⟨_, rfl, rfl⟩
  · have hrows := lines_rows hempty (fun c hc => repo.shas c (hin c hc))
      (fun c hc => repo.oneLine c (hin c hc))
      (fun c hc => hsubjects c (hin c hc)) holdest
    have hlogNe : isEmptyText
        (trim (printLines ((repo.since tag).map Commit.row))) = false := by
      obtain ⟨c, rest, hc⟩ := List.exists_cons_of_ne_nil hempty
      have hsha := repo.shas c (hin c (by simp [hc]))
      obtain ⟨more, hlog⟩ : ∃ more, trim (printLines
          ((repo.since tag).map Commit.row)) = c.sha ++ more := by
        rw [hc, List.map_cons]
        exact trim_printLines_start (isSha_trimmed hsha) (sha_ne_nil hsha)
          ('\t' :: c.subject) _
      rw [hlog]
      exact not_isEmptyText_sha hsha more
    rw [if_neg (Bool.eq_false_iff.mp hlogNe), hrows, hread]
    exact ⟨_, rfl, rfl⟩

omit [Culture] in
theorem resolveBase_serves (hgit : git.Serves repo) :
    resolveBase git [] = .ok repo.tip := by
  obtain ⟨tip, htip, htipSha⟩ := List.mem_map.mp repo.tipHeld
  have hsha : IsSha repo.tip := htipSha ▸ repo.shas tip htip
  have hout : getGitOutput git revParseTip = .ok repo.tip := by
    rw [getGitOutput_success hgit.tip]
    simp [printLines, (isSha_trimmed hsha).trim_line]
  have hbase : reBase repo.tip = true := by simp [reBase, atEnd, hsha]
  unfold resolveBase
  rw [if_neg (by simp), hout]
  exact if_pos hbase

-- ================================================================== the runs

/-- What both runs ask of the pull request of a release commit. -/
def Ready (git : Git) (releases : PrReleases) (sha number : Text) : Prop :=
  ∃ entry, releases number = some entry
    ∧ getReleaseCommitFault entry sha = none
    ∧ testFaithfulReleaseCommit git entry sha = .ok true

omit [Culture] in
theorem prints_ok {line word : Text} {stderr : List Text} :
    Prints line (.ok ⟨[word], stderr⟩) ↔ word = line := by
  simp [Prints]

omit [Culture] in
theorem not_prints_error {line e : Text} : ¬ Prints line (.error e) := by
  simp [Prints]

omit [Culture] in
theorem Prints.unique {line line' : Text} {run : Except Text Printed}
    (h : Prints line run) (h' : Prints line' run) : line = line' := by
  obtain ⟨stderr, rfl⟩ := h
  exact prints_ok.mp h'

/-- The loop waits for no other commit than the tip. -/
theorem mem_of_waiting {tip : Text} {stderr : List Text}
    {candidates : List Candidate}
    (h : Prints "waiting".toList
      (pendingCutLoop git releases tip stderr candidates)) :
    ∃ c ∈ candidates, ceq c.sha tip = true := by
  induction candidates with
  | nil => exact absurd (prints_ok.mp h) (by decide)
  | cons c rest ih =>
      unfold pendingCutLoop at h
      split at h
      next => exact absurd h not_prints_error
      next entry _ =>
        split at h
        next =>
          obtain ⟨c', hc', htip⟩ := ih h
          exact ⟨c', List.mem_cons_of_mem _ hc', htip⟩
        next =>
          split at h
          next => exact absurd h not_prints_error
          next faithful _ =>
            dsimp only at h
            split at h
            next htip =>
              rw [Bool.and_eq_true] at htip
              exact ⟨c, List.mem_cons_self, htip.2⟩
            next =>
              split at h <;> exact absurd (prints_ok.mp h) (by decide)

/-- A release commit at the tip is the first candidate. -/
theorem waiting_iff {tip number : Text} {stderr : List Text}
    {rest : List Candidate} (hrest : ¬ ∃ c ∈ rest, ceq c.sha tip = true) :
    Prints "waiting".toList
        (pendingCutLoop git releases tip stderr (⟨tip, number⟩ :: rest))
      ↔ Ready git releases tip number := by
  unfold pendingCutLoop Ready
  dsimp only
  cases releases number with
  | none => simp [not_prints_error]
  | some entry =>
      have hvalid : testValidReleaseCommit entry tip
          = (getReleaseCommitFault entry tip).isNone := rfl
      simp only [Option.some.injEq, exists_eq_left']
      by_cases hfault : getReleaseCommitFault entry tip = none
      · rw [hvalid, hfault]
        cases testFaithfulReleaseCommit git entry tip with
        | error e => simp [not_prints_error]
        | ok faithful => cases faithful <;> simp [prints_ok]
      · obtain ⟨fault, hfault⟩ := Option.ne_none_iff_exists'.mp hfault
        rw [hvalid, hfault]
        simpa [-not_exists] using fun h => hrest (mem_of_waiting h)

/-- On the commit only the last tag itself compares equal to it. -/
def Repository.TellsLast (repo : Repository) (sha : Text) : Prop :=
  ∀ last, repo.LastTag last → ∀ t ∈ repo.tags, t.commit = sha →
    ceq t.name last.name = true → t = last

theorem tagOrTagged_tag_iff (hgit : git.Serves repo)
    (htags : ∀ t ∈ repo.tags, Trimmed t.name) {sha : Text}
    (htells : repo.TellsLast sha) :
    Prints "tag".toList (tagOrTagged git sha)
      ↔ ∃ tag, repo.LastTag tag ∧ tag.commit ≠ sha := by
  have hnames : splitWords (trim (printLines (pointsAt repo.tags sha)))
      = pointsAt repo.tags sha := by
    apply splitWords_names
    · intro n hn
      exact repo.tagWords _ (mem_pointsAt.mp hn)
    · intro n hn
      exact htags _ (mem_pointsAt.mp hn)
  have hout : getGitOutput git (listPointsAt sha)
      = .ok (trim (printLines (pointsAt repo.tags sha))) :=
    getGitOutput_success (hgit.pointsAt sha)
  unfold tagOrTagged
  cases hversion : getLastVersion git with
  | error e =>
      simp only [not_prints_error, false_iff]
      rintro ⟨tag, htag, -⟩
      obtain ⟨v, stderr, hlatest, -⟩ := latest_of_lastTag htag
      rw [(getLastVersion_iff hgit htags).mpr hlatest] at hversion
      cases hversion
  | ok found =>
      obtain ⟨v, stderr⟩ := found
      obtain ⟨tag, htag, hname⟩ :=
        lastTag_of_latest ((getLastVersion_iff hgit htags).mp hversion)
      have hcommit : ccontains (pointsAt repo.tags sha) (tagName v) = true
          ↔ tag.commit = sha := by
        rw [← hname]
        constructor
        · intro h
          obtain ⟨name, hmem, hsame⟩ := List.any_eq_true.mp h
          have hlast := htells tag htag ⟨name, sha⟩ (mem_pointsAt.mp hmem)
            rfl hsame
          rw [← hlast]
        · rintro rfl
          exact ccontains_of_mem (mem_pointsAt.mpr htag.1)
      have hlast : (∃ tag, repo.LastTag tag ∧ tag.commit ≠ sha)
          ↔ tag.commit ≠ sha := by
        constructor
        · rintro ⟨tag', htag', hne⟩
          rwa [LastTag_unique htag htag']
        · exact fun hne => ⟨tag, htag, hne⟩
      dsimp only
      rw [hout]
      dsimp only
      rw [hnames, hlast, ne_eq, ← hcommit]
      by_cases hon : ccontains (pointsAt repo.tags sha) (tagName v) = true
      · rw [if_pos hon, prints_ok]
        simpa using hon
      · rw [if_neg hon, prints_ok]
        simpa using hon

/-- The tagging bot tags a release commit that is ready and does not carry
the last tag. -/
theorem releaseCommit_tag_iff (hgit : git.Serves repo) {c : Commit}
    (hc : c ∈ repo.commits) (hsubject : Trimmed c.subject) :
    Prints "tag".toList (releaseCommit git releases c.sha)
      ↔ ∃ number, releaseSubject c.subject = some number
        ∧ Ready git releases c.sha number
        ∧ Prints "tag".toList (tagOrTagged git c.sha) := by
  have hout : getGitOutput git (logSubject c.sha) = .ok c.subject := by
    rw [getGitOutput_success (hgit.subject c hc)]
    simp [printLines, hsubject.trim_line]
  unfold releaseCommit
  rw [hout]
  dsimp only
  cases releaseSubject c.subject with
  | none => simp [prints_ok]
  | some number =>
      simp only [Option.some.injEq, exists_eq_left', Ready]
      cases releases number with
      | none => simp [not_prints_error]
      | some entry =>
          simp only [Option.some.injEq, exists_eq_left']
          cases getReleaseCommitFault entry c.sha with
          | some fault =>
              obtain ⟨kind, reason⟩ := fault
              cases kind <;> simp [prints_ok, not_prints_error]
          | none =>
              cases testFaithfulReleaseCommit git entry c.sha with
              | error e => simp [not_prints_error]
              | ok faithful => cases faithful <;> simp [prints_ok]

/-- The release commits among some. -/
def candidatesIn (commits : List Commit) : List Candidate :=
  candidatesOf (commits.map fun c => ⟨c.sha, c.subject⟩)

omit [Culture] in
theorem candidatesIn_cons (c : Commit) (rest : List Commit) :
    candidatesIn (c :: rest) =
      match releaseSubject c.subject with
      | none => candidatesIn rest
      | some number => ⟨c.sha, number⟩ :: candidatesIn rest := by
  unfold candidatesIn candidatesOf
  rw [List.map_cons, List.filterMap_cons]
  cases releaseSubject c.subject <;> rfl

omit [Culture] in
theorem mem_candidatesIn {commits : List Commit} {sha : Text}
    (h : sha ∈ (candidatesIn commits).map Candidate.sha) :
    ∃ c ∈ commits, c.sha = sha := by
  obtain ⟨candidate, hmem, rfl⟩ := List.mem_map.mp h
  obtain ⟨e, he, hcandidate⟩ := List.mem_filterMap.mp hmem
  obtain ⟨c, hc, rfl⟩ := List.mem_map.mp he
  obtain ⟨number, -, rfl⟩ := Option.map_eq_some_iff.mp hcandidate
  exact ⟨c, hc, rfl⟩

theorem pendingCut_serves (hgit : git.Serves repo)
    (htags : ∀ t ∈ repo.tags, Trimmed t.name)
    (hsubjects : ∀ c ∈ repo.commits, Trimmed c.subject)
    {tag : TagRef Text} (htag : repo.LastTag tag)
    (holdest : ∀ c ∈ (repo.since tag).getLast?, c.subject ≠ []) :
    ∃ stderr, pendingCut git releases
      = pendingCutLoop git releases repo.tip stderr
        (candidatesIn (repo.since tag)) := by
  obtain ⟨log, hlog, hentries⟩ :=
    getRangeLog_serves hgit htags hsubjects htag holdest
  refine ⟨log.stderr, ?_⟩
  unfold pendingCut getReleaseCandidates candidatesIn
  rw [resolveBase_serves hgit]
  dsimp only
  rw [hlog, ← hentries]

theorem not_waiting_of_no_tag (hgit : git.Serves repo)
    (htags : ∀ t ∈ repo.tags, Trimmed t.name)
    (hnone : ∀ tag, ¬ repo.LastTag tag) :
    ¬ Prints "waiting".toList (pendingCut git releases) := by
  unfold pendingCut getReleaseCandidates getRangeLog
  rw [resolveBase_serves hgit]
  cases hversion : getLastVersion git with
  | error e => exact not_prints_error
  | ok found =>
      obtain ⟨v, stderr⟩ := found
      obtain ⟨tag, htag, -⟩ :=
        lastTag_of_latest ((getLastVersion_iff hgit htags).mp hversion)
      exact absurd htag (hnone tag)

-- ============================================================ the agreement

/-- The release bot waits exactly for what the tagging bot will tag; it
neither proceeds nor abandons it. -/
structure CutsAgree (git : Git) (releases : PrReleases) (tip : Text) :
    Prop where
  waits : Prints "waiting".toList (pendingCut git releases)
    ↔ Prints "tag".toList (releaseCommit git releases tip)
  holds : Prints "tag".toList (releaseCommit git releases tip) →
    ¬ Prints "proceed".toList (pendingCut git releases)
      ∧ ¬ Prints "abandoned".toList (pendingCut git releases)

theorem CutsAgree.of_iff {tip : Text}
    (h : Prints "waiting".toList (pendingCut git releases)
      ↔ Prints "tag".toList (releaseCommit git releases tip)) :
    CutsAgree git releases tip where
  waits := h
  holds htag := by
    have hwaiting := h.mpr htag
    constructor
    · exact fun hline => absurd (hwaiting.unique hline) (by decide)
    · exact fun hline => absurd (hwaiting.unique hline) (by decide)

/-- What both bots start from: the tip is not behind the last tag, and
there is data for every release commit since. -/
structure CutFacts (git : Git) (releases : PrReleases) (repo : Repository) :
    Prop where
  serves : git.Serves repo
  subjects : ∀ c ∈ repo.commits, Trimmed c.subject
  notBehind : ∀ tag, repo.LastTag tag →
    repo.IsAncestor repo.tip tag.commit → repo.tip = tag.commit
  data : ∀ tag, repo.LastTag tag → ∀ c ∈ repo.since tag,
    ∀ number ∈ releaseSubject c.subject, (releases number).isSome

/-- Both bots decide alike about the tip, unless the trimming of what git
prints eats the end of the log or a part of a tag's name, or a tag on the
tip is taken for the last one. -/
theorem pending_cut_agrees (hfacts : CutFacts git releases repo)
    (htags : ∀ t ∈ repo.tags, Trimmed t.name)
    (holdest : ∀ tag, repo.LastTag tag →
      ∀ c ∈ (repo.since tag).getLast?, c.subject ≠ [])
    (htells : repo.TellsLast repo.tip) :
    CutsAgree git releases repo.tip := by
  apply CutsAgree.of_iff
  obtain ⟨hgit, hsubjects, hbehind, -⟩ := hfacts
  obtain ⟨tip, htip, htipSha⟩ := List.mem_map.mp repo.tipHeld
  have htagging : Prints "tag".toList (releaseCommit git releases tip.sha) ↔ _ :=
    releaseCommit_tag_iff hgit htip (hsubjects tip htip)
  have htipIsSha : IsSha repo.tip := htipSha ▸ repo.shas tip htip
  rw [htipSha, tagOrTagged_tag_iff hgit htags htells] at htagging
  rw [htagging]
  by_cases hnone : ∀ tag, ¬ repo.LastTag tag
  · constructor
    · exact fun h => absurd h (not_waiting_of_no_tag hgit htags hnone)
    · rintro ⟨number, -, -, tag, htag, -⟩
      exact absurd htag (hnone tag)
  push Not at hnone
  obtain ⟨tag, htag⟩ := hnone
  obtain ⟨stderr, hloop⟩ : ∃ stderr, pendingCut git releases
      = pendingCutLoop git releases repo.tip stderr (candidatesIn (repo.since tag)) :=
    pendingCut_serves hgit htags hsubjects htag (holdest tag htag)
  rw [hloop]
  by_cases hancestor : repo.IsAncestor repo.tip tag.commit
  · constructor
    · intro h
      obtain ⟨candidate, hcandidate, hsame⟩ := mem_of_waiting h
      obtain ⟨c, hc, hsha⟩ := mem_candidatesIn (List.mem_map_of_mem hcandidate)
      rw [← hsha, ceq_sha (repo.shas c (mem_range hc).1) htipIsSha] at hsame
      exact absurd hsame (range_ne_tip hancestor c hc)
    · rintro ⟨number, -, -, tag', htag', hne⟩
      rw [LastTag_unique htag' htag] at hne
      exact absurd (hbehind tag htag hancestor).symm hne
  · obtain ⟨c, rest, hrange, hsha, hrest⟩ := range_tip hancestor
    have hne : tag.commit ≠ repo.tip := by
      intro heq
      apply hancestor
      rw [heq]
      exact reachable_seed (List.mem_singleton_self _) repo.tipHeld
    have hc : c = tip := by
      have hmem : c ∈ repo.range tag.commit repo.tip := by
        rw [hrange]
        exact List.mem_cons_self
      exact List.inj_on_of_nodup_map repo.distinct (mem_range hmem).1 htip
        (hsha.trans htipSha.symm)
    subst hc
    have hothers : ¬ ∃ candidate ∈ candidatesIn rest,
        ceq candidate.sha repo.tip = true := by
      rintro ⟨candidate, hcandidate, hsame⟩
      obtain ⟨c', hc', hsha'⟩ :=
        mem_candidatesIn (List.mem_map_of_mem hcandidate)
      have hin : c' ∈ repo.range tag.commit repo.tip := by
        rw [hrange]
        exact List.mem_cons_of_mem _ hc'
      rw [← hsha', ceq_sha (repo.shas c' (mem_range hin).1) htipIsSha] at hsame
      exact hrest c' hc' hsame
    have hlast : ∃ tag, repo.LastTag tag ∧ tag.commit ≠ repo.tip :=
      ⟨tag, htag, hne⟩
    unfold Repository.since
    rw [hrange, candidatesIn_cons, htipSha]
    cases releaseSubject c.subject with
    | none => simpa [-not_exists] using fun h => hothers (mem_of_waiting h)
    | some number => simpa [hlast] using waiting_iff hothers

end Culture

-- ================================================================ histories

instance (t : Text) : Decidable (Trimmed t) :=
  decidable_of_iff (t.head?.all (fun c => !isWhiteSpace c) = true
      ∧ t.getLast?.all (fun c => !isWhiteSpace c) = true)
    ⟨fun h => ⟨by simpa [Option.all_eq_true] using h.1,
        by simpa [Option.all_eq_true] using h.2⟩,
      fun h => ⟨by simpa [Option.all_eq_true] using h.first,
        by simpa [Option.all_eq_true] using h.last⟩⟩

instance (line : Text) : (run : Except Text Printed) →
    Decidable (Prints line run)
  | .error _ => .isFalse not_prints_error
  | .ok ⟨stdout, stderr⟩ => decidable_of_iff (stdout = [line])
      (by simp [Prints])

/-- A hash of one digit. -/
def shaOf (digit : Char) : Text := List.replicate 40 digit

theorem isSha_shaOf {digit : Char} (h : isHex digit = true) :
    IsSha (shaOf digit) := by
  refine ⟨List.length_replicate, fun c hc => ?_⟩
  rw [(List.mem_replicate.mp hc).2]
  exact h

/-- The merge of pull request 7 over a commit with a subject, and tags on the
commit before or on the merge. -/
def cutOver (subject : Text) (tags : List (TagRef Text)) (hline : '\n' ∉ subject)
    (hdistinct : (tagList tags).Nodup)
    (htags : ∀ t ∈ tags, t.commit ∈ [shaOf 'a', shaOf 'c'] ∧ IsWord t.name) :
    Repository where
  commits :=
    [⟨shaOf 'c', [shaOf 'b'], shaOf 'd', "release/next (#7)".toList⟩,
      ⟨shaOf 'b', [shaOf 'a'], shaOf 'e', subject⟩,
      ⟨shaOf 'a', [], shaOf 'f', "first".toList⟩]
  tip := shaOf 'c'
  tags := tags
  distinct := show [shaOf 'c', shaOf 'b', shaOf 'a'].Nodup by decide
  shas := by
    simp only [List.forall_mem_cons, List.not_mem_nil, false_implies,
      implies_true, and_true]
    exact ⟨isSha_shaOf rfl, isSha_shaOf rfl, isSha_shaOf rfl⟩
  parentsLater := by simp [ParentsLater]
  oneLine := by simpa using hline
  tipHeld := List.mem_cons_self
  tagsDistinct := hdistinct
  tagsHeld t ht := by
    have hcommit := (htags t ht).1
    simp only [List.mem_cons, List.not_mem_nil, or_false] at hcommit
    rcases hcommit with h | h <;> simp [h]
  tagWords t ht := (htags t ht).2

def first : TagRef Text := ⟨"v1.0.0".toList, shaOf 'a'⟩

def cut : Repository :=
  cutOver "fix/clock".toList [first] (by decide) (by decide) (by decide)

/-- The commit under the cut has no subject. -/
def unnamed : Repository := cutOver [] [first] (by decide) (by decide) (by decide)

/-- A tag ends with a no-break space. -/
def padded : Repository :=
  cutOver "fix/clock".toList
    [first, ⟨"v1.2.0".toList ++ [Char.ofNat 0xA0], shaOf 'a'⟩]
    (by decide) (by decide) (by decide)

/-- A tag on the merge differs from `v1.0.0` by a soft hyphen. -/
def mimicked : Repository :=
  cutOver "fix/clock".toList
    [first, ⟨"v1.0.0".toList ++ [SoftHyphen.softHyphen], shaOf 'c'⟩]
    (by decide) (by decide) (by decide)

/-- The data of pull request 7. -/
def merged (number : Text) : Option PrEntry :=
  if number = "7".toList then
    some (some {
      merged := true
      mergeCommitSha := some (shaOf 'c')
      baseRef := "main".toList
      baseRepo := "can-tools/restifycapl".toList
      headRef := "release/next".toList
      headRepo := some "can-tools/restifycapl".toList
      headParents := some [shaOf 'b']
      headTree := some (shaOf 'd') })
  else none

open SoftHyphen

/-- The version tags of these histories are on the first commit. -/
theorem cutFacts_of_tags {repo : Repository}
    (hsubjects : ∀ c ∈ repo.commits, Trimmed c.subject)
    (htags : ∀ t ∈ repo.tags, isVersionTag t.name = true →
      ¬ repo.IsAncestor repo.tip t.commit)
    (hdata : ∀ t ∈ repo.tags, ∀ c ∈ repo.since t,
      ∀ number ∈ releaseSubject c.subject, (merged number).isSome) :
    CutFacts repo.git merged repo where
  serves := repo.git_serves
  subjects := hsubjects
  notBehind tag htag hancestor :=
    absurd hancestor (htags tag htag.1 htag.2.2.1.shaped)
  data tag htag := hdata tag htag.1

theorem tellsLast_of_untagged {repo : Repository}
    (h : ∀ t ∈ repo.tags, t.commit ≠ repo.tip) : repo.TellsLast repo.tip :=
  fun _ _ t ht htip _ => absurd htip (h t ht)

instance (repo : Repository) (sha descendant : Text) :
    Decidable (repo.IsAncestor sha descendant) :=
  inferInstanceAs (Decidable (sha ∈ _))

theorem pending_cut_agrees_cut : CutsAgree cut.git merged cut.tip :=
  pending_cut_agrees
    (cutFacts_of_tags (by decide) (by decide)
      (by decide))
    (by decide)
    (fun tag htag => (show ∀ t ∈ cut.tags,
      ∀ c ∈ (cut.since t).getLast?, c.subject ≠ [] by decide)
        tag htag.1)
    (tellsLast_of_untagged (by decide))

/-- The tagging bot tags the first two of these cuts, and the release bot
stops with an error: over the row that lost its tab, and over the range of a
tag that does not exist. The release bot waits for the third to be tagged,
and the tagging bot takes it for tagged. -/
theorem bots_disagree :
    (CutFacts unnamed.git merged unnamed
        ∧ (∀ t ∈ unnamed.tags, Trimmed t.name)
        ∧ unnamed.TellsLast unnamed.tip
        ∧ ¬ CutsAgree unnamed.git merged unnamed.tip)
      ∧ (CutFacts padded.git merged padded
        ∧ (∀ tag ∈ padded.tags,
          ∀ c ∈ (padded.since tag).getLast?, c.subject ≠ [])
        ∧ padded.TellsLast padded.tip
        ∧ ¬ CutsAgree padded.git merged padded.tip)
      ∧ CutFacts mimicked.git merged mimicked
        ∧ (∀ t ∈ mimicked.tags, Trimmed t.name)
        ∧ (∀ tag, mimicked.LastTag tag →
          ∀ c ∈ (mimicked.since tag).getLast?, c.subject ≠ [])
        ∧ ¬ CutsAgree mimicked.git merged mimicked.tip := by
  have hunnamed : Prints "tag".toList
      (releaseCommit unnamed.git merged unnamed.tip) := by decide
  have hpadded : Prints "tag".toList
      (releaseCommit padded.git merged padded.tip) := by decide
  have hmimicked : Prints "waiting".toList
      (pendingCut mimicked.git merged) := by decide
  refine ⟨⟨?_, ?_, ?_, ?_⟩, ⟨?_, ?_, ?_, ?_⟩, ?_, ?_, ?_, ?_⟩
  · exact cutFacts_of_tags (by decide) (by decide)
      (by decide)
  · decide
  · exact tellsLast_of_untagged (by decide)
  · exact fun h => absurd (h.waits.mpr hunnamed) (by decide)
  · exact cutFacts_of_tags (by decide) (by decide)
      (by decide)
  · decide
  · exact tellsLast_of_untagged (by decide)
  · exact fun h => absurd (h.waits.mpr hpadded) (by decide)
  · exact cutFacts_of_tags (by decide) (by decide)
      (by decide)
  · decide
  · intro tag htag
    have hshaped := htag.2.2.1.shaped
    have hall : ∀ t ∈ mimicked.tags, isVersionTag t.name = true →
        ∀ c ∈ (mimicked.since t).getLast?, c.subject ≠ [] := by
      decide
    exact hall tag htag.1 hshaped
  · exact fun h => absurd (h.waits.mp hmimicked) (by decide)

end RestifyCapl.Ci
