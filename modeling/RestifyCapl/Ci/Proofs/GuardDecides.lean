/-
The release bot always comes to a decision, and GitHub's answers are all
it goes by. Its steps ask `release-prs` for numbers, fetch the pull
requests of these, and ask `pending-cut`: the newest commit since the last
tag that is the cut of its pull request decides, and without one the bot
proceeds (`guard_decides`). No run stops for data that is missing.

Base layer: what makes a commit the cut of a pull request (`fault_none_iff`)
and a faithful one (`testFaithful_serves`), and the loop of `pending-cut`
on the commits themselves (`pendingCutLoop_decides`).
-/
import RestifyCapl.Ci.Proofs.PendingCut
import RestifyCapl.Ci.Proofs.PrDataFile
import RestifyCapl.Ci.Proofs.PrNumbers

namespace RestifyCapl.Ci

open Lib

variable {git : Git} {repo : Repository} {held : Text → PullState}

-- =========================================================== what is printed

theorem parents_sha {c : Commit} (hc : c ∈ repo.commits) {p : Text}
    (hp : p ∈ c.parents) : IsSha p := by
  have hin : ∀ {commits : List Commit}, ParentsLater commits → c ∈ commits →
      p ∈ commits.map Commit.sha := by
    intro commits hlater hmem
    induction commits with
    | nil => cases hmem
    | cons d rest ih =>
        obtain ⟨hd, hrest⟩ := hlater
        rw [List.map_cons]
        rcases List.mem_cons.mp hmem with rfl | hmem
        · exact List.mem_cons_of_mem _ (hd p hp)
        · exact List.mem_cons_of_mem _ (ih hrest hmem)
  obtain ⟨d, hd, rfl⟩ := List.mem_map.mp (hin repo.parentsLater hc)
  exact repo.shas d hd

theorem isWord_of_sha {sha : Text} (h : IsSha sha) : IsWord sha := by
  refine ⟨sha_ne_nil h, fun c hc => ?_⟩
  have hclean := isHex_clean (h.2 c hc)
  by_contra hblank
  rw [Bool.not_eq_false] at hblank
  unfold isWordBlank at hblank
  simp only [Bool.or_eq_true, beq_iff_eq] at hblank
  rcases hblank with ((rfl | rfl) | rfl) | rfl <;> exact absurd hclean (by decide)

/-- Words with a blank in between are read as these words. -/
theorem splitWords_spaced {words : List Text} (h : ∀ w ∈ words, IsWord w) :
    splitWords ([' '].intercalate words) = words :=
  filter_splitOnP_intercalate (by decide) h

/-- What `Test-FaithfulReleaseCommit` gets of a commit: the tab goes where
nothing stands before it. -/
theorem getGitOutput_info (hgit : git.Serves repo) {c : Commit}
    (hc : c ∈ repo.commits) (htree : IsSha c.tree) :
    getGitOutput git (logInfo c.sha) = .ok
      (if c.parents = [] then c.tree else c.info) := by
  have hprint : printLines [c.info] = c.info ++ ['\n'] := List.append_nil _
  rw [getGitOutput_success (hgit.info c hc), hprint]
  by_cases hroot : c.parents = []
  · rw [if_pos hroot]
    have hinfo : c.info = '\t' :: c.tree := by
      unfold Commit.info
      rw [hroot]
      rfl
    have htrim : trim ('\t' :: c.tree ++ ['\n']) = trim (c.tree ++ ['\n']) := by
      unfold trim
      rw [List.cons_append, List.dropWhile_cons_of_pos (by decide)]
    rw [hinfo, htrim, (isSha_trimmed htree).trim_line]
  · obtain ⟨p, rest, hparents⟩ := List.exists_cons_of_ne_nil hroot
    have hp : IsSha p := parents_sha hc (by rw [hparents]; exact List.mem_cons_self)
    have htrimmed : Trimmed c.info := by
      obtain ⟨first, hfirst⟩ : ∃ more, c.info = p ++ more := by
        unfold Commit.info
        rw [hparents]
        cases rest with
        | nil => exact ⟨'\t' :: c.tree, by simp [List.intercalate]⟩
        | cons q rest => exact ⟨_, by simp [List.intercalate]; rfl⟩
      constructor
      · intro d hd
        rw [hfirst, List.head?_append_of_ne_nil _ (sha_ne_nil hp)] at hd
        exact (isSha_trimmed hp).first d hd
      · intro d hd
        unfold Commit.info at hd
        rw [List.getLast?_append_cons,
          List.getLast?_cons_of_ne_nil (sha_ne_nil htree)] at hd
        exact (isSha_trimmed htree).last d hd
    rw [if_neg hroot, htrimmed.trim_line]

theorem of_mem_unseen {seen : List Text} {candidates : List Candidate}
    {n : Text} (h : n ∈ unseen seen candidates) :
    n ∈ candidates.map Candidate.number := by
  induction candidates generalizing seen with
  | nil => cases h
  | cons c rest ih =>
      unfold unseen at h
      rw [List.map_cons]
      split at h
      next => exact List.mem_cons_of_mem _ (ih h)
      next =>
        rcases List.mem_cons.mp h with rfl | h
        · exact List.mem_cons_self
        · exact List.mem_cons_of_mem _ (ih h)

theorem releaseSubject_printed {subject number : Text}
    (h : releaseSubject subject = some number) : IsPrinted number := by
  unfold releaseSubject at h
  refine of_atEnd (fun t ht => ?_) h
  dsimp only at ht
  split at ht
  next =>
    split at ht
    next hnumber =>
      cases ht
      unfold isPrNumber at hnumber
      rw [Bool.and_eq_true, Bool.and_eq_true] at hnumber
      exact isNumber_iff.mp hnumber.1.1
    next => cases ht
  next => cases ht

theorem mem_candidatesIn_number {commits : List Commit} {n : Text} :
    n ∈ (candidatesIn commits).map Candidate.number
      ↔ ∃ c ∈ commits, releaseSubject c.subject = some n := by
  unfold candidatesIn candidatesOf
  constructor
  · intro h
    obtain ⟨candidate, hmem, rfl⟩ := List.mem_map.mp h
    obtain ⟨e, he, hcandidate⟩ := List.mem_filterMap.mp hmem
    obtain ⟨c, hc, rfl⟩ := List.mem_map.mp he
    obtain ⟨number, hnumber, rfl⟩ := Option.map_eq_some_iff.mp hcandidate
    exact ⟨c, hc, hnumber⟩
  · rintro ⟨c, hc, hnumber⟩
    refine List.mem_map.mpr ⟨⟨c.sha, n⟩, ?_, rfl⟩
    refine List.mem_filterMap.mpr ⟨⟨c.sha, c.subject⟩, ?_, ?_⟩
    · exact List.mem_map.mpr ⟨c, hc, rfl⟩
    · dsimp only
      rw [hnumber]
      rfl

theorem mem_releasePrs {commits : List Commit} {n : Text} :
    n ∈ unseen [] (candidatesIn commits)
      ↔ ∃ c ∈ commits, releaseSubject c.subject = some n := by
  rw [← mem_candidatesIn_number]
  constructor
  · exact of_mem_unseen
  · intro h
    obtain ⟨candidate, hmem, rfl⟩ := List.mem_map.mp h
    exact mem_unseen hmem List.not_mem_nil

section Culture

variable [Culture]

-- ================================================================= the checks

/-- A commit that is the merge of a pull request of release/next into main,
from this repository, as the script compares names. -/
inductive CutOf (sha : Text) : PullState → Prop
  | merged (p : PullRequest) (head : Option (List Text × Text))
      (hmerged : p.merged = true)
      (hsha : p.mergeCommitSha.any (ceq · sha) = true)
      (hbase : ceq p.baseRef "main".toList = true)
      (hhead : ceq p.headRef "release/next".toList = true)
      (hrepo : p.headRepo.any (ceq · p.baseRepo) = true) :
      CutOf sha (.found p head)

theorem fault_none_iff {state : PullState} {sha : Text} :
    getReleaseCommitFault state.entry sha = none ↔ CutOf sha state := by
  cases state with
  | notFound =>
      constructor
      · intro h
        cases h
      · intro h
        cases h
  | found p head =>
      unfold getReleaseCommitFault PullState.entry
      dsimp only
      constructor
      · intro h
        split at h
        next => cases h
        next hmerged =>
        split at h
        next => cases h
        next hsha =>
        split at h
        next => cases h
        next hbase =>
        split at h
        next => cases h
        next hhead =>
        split at h
        next => cases h
        next hrepo =>
        exact .merged p head (by simpa using hmerged) (by simpa using hsha)
          (by simpa using hbase) (by simpa using hhead) (by simpa using hrepo)
      · intro h
        cases h with
        | merged _ _ hmerged hsha hbase hhead hrepo =>
            have hnot : ∀ {b : Bool}, b = true → ¬ (!b) = true := by
              rintro b rfl
              exact Bool.false_ne_true
            rw [if_neg (hnot hmerged), if_neg (hnot hsha), if_neg (hnot hbase),
              if_neg (hnot hhead), if_neg (hnot hrepo)]

/-- A commit with the one parent and the tree of a pull request's head. -/
inductive FaithfulTo (c : Commit) : PullState → Prop
  | head (p : PullRequest) (parent headParent headTree : Text)
      (hparents : c.parents = [parent])
      (hparent : ceq headParent parent = true)
      (htree : ceq headTree c.tree = true) :
      FaithfulTo c (.found p (some ([headParent], headTree)))

theorem singleton_of_sameParent {headParents : List Text} {parent : Text}
    (h : sameParent headParents parent = true) :
    ∃ headParent, headParents = [headParent] := by
  unfold sameParent at h
  split at h
  next headParent => exact ⟨headParent, rfl⟩
  next => cases h

theorem faithfulTo_iff {c : Commit} {state : PullState} :
    FaithfulTo c state ↔ ∃ parent headParents headTree, c.parents = [parent]
      ∧ state.entry.bind PrData.headParents = some headParents
      ∧ state.entry.bind PrData.headTree = some headTree
      ∧ sameParent headParents parent = true
      ∧ ceq headTree c.tree = true := by
  constructor
  · intro h
    cases h with
    | head p parent headParent headTree hparents hparent htree =>
        exact ⟨parent, [headParent], headTree, hparents, rfl, rfl, hparent, htree⟩
  · rintro ⟨parent, headParents, headTree, hparents, hhead, hheadTree, hsame,
      htree⟩
    cases state with
    | notFound => cases hhead
    | found p head =>
        cases head with
        | none => cases hhead
        | some head =>
            obtain ⟨parents, tree⟩ := head
            obtain rfl : parents = headParents := Option.some.inj hhead
            obtain rfl : tree = headTree := Option.some.inj hheadTree
            obtain ⟨headParent, rfl⟩ := singleton_of_sameParent hsame
            exact .head p parent headParent tree hparents hsame htree

/-- `Test-FaithfulReleaseCommit`, of what GitHub holds. -/
theorem testFaithful_serves (hgit : git.Serves repo) {c : Commit}
    (hc : c ∈ repo.commits) (htree : IsSha c.tree) (state : PullState) :
    ∃ faithful, testFaithfulReleaseCommit git state.entry c.sha = .ok faithful
      ∧ (faithful = true ↔ FaithfulTo c state) := by
  have hnotab : '\t' ∉ c.tree := not_mem_of_isSha htree (by decide)
  unfold testFaithfulReleaseCommit
  rw [getGitOutput_info hgit hc htree]
  by_cases hroot : c.parents = []
  · rw [if_pos hroot]
    dsimp only
    rw [List.splitOn_eq_singleton hnotab]
    refine ⟨false, rfl, ?_⟩
    constructor
    · intro h
      cases h
    · rintro ⟨-, parent, -, -, hparents⟩
      rw [hroot] at hparents
      cases hparents
  · have hwords : ∀ p ∈ c.parents, IsWord p := fun p hp =>
      isWord_of_sha (parents_sha hc hp)
    have hjoined : '\t' ∉ [' '].intercalate c.parents := by
      intro hmem
      rcases mem_intercalate hmem with hmem | ⟨p, hp, hmem⟩
      · exact absurd hmem (by decide)
      · exact not_mem_of_isSha (parents_sha hc hp) (by decide) hmem
    have hsplit : c.info.splitOn '\t'
        = [[' '].intercalate c.parents, c.tree] := by
      unfold Commit.info
      rw [List.splitOn_append_cons_self_of_not_mem hjoined,
        List.splitOn_eq_singleton hnotab]
    rw [if_neg hroot]
    dsimp only
    rw [hsplit]
    dsimp only
    rw [splitWords_spaced hwords, (isSha_trimmed htree).trim, faithfulTo_iff]
    split
    next parent headParents headTree hparents hhead hheadTree =>
      refine ⟨_, rfl, ?_⟩
      rw [Bool.and_eq_true]
      constructor
      · rintro ⟨hsame, htree'⟩
        exact ⟨parent, headParents, headTree, hparents, hhead, hheadTree, hsame,
          htree'⟩
      · rintro ⟨parent', headParents', headTree', hparents', hhead', hheadTree',
          hsame, htree'⟩
        obtain rfl : parent = parent' := by
          rw [hparents] at hparents'
          exact List.singleton_inj.mp hparents'
        obtain rfl : headParents = headParents' := by
          rw [hhead] at hhead'
          exact Option.some.inj hhead'
        obtain rfl : headTree = headTree' := by
          rw [hheadTree] at hheadTree'
          exact Option.some.inj hheadTree'
        exact ⟨hsame, htree'⟩
    next hnone =>
      refine ⟨false, rfl, ?_⟩
      constructor
      · intro h
        cases h
      · rintro ⟨parent, _, _, hparents, hhead, hheadTree, -⟩
        exact (hnone parent _ _ hparents hhead hheadTree).elim

-- ================================================================= the loop

/-- A commit is the cut of the pull request in its subject. -/
def IsCut (held : Text → PullState) (c : Commit) : Prop :=
  ∃ number, releaseSubject c.subject = some number ∧ CutOf c.sha (held number)

def IsFaithful (held : Text → PullState) (c : Commit) : Prop :=
  ∃ number, releaseSubject c.subject = some number ∧ FaithfulTo c (held number)

/-- What the newest cut among some commits decides. -/
inductive Decided (held : Text → PullState) (tip : Text) :
    List Commit → Text → Prop
  | proceed {commits : List Commit} (h : ∀ c ∈ commits, ¬ IsCut held c) :
      Decided held tip commits "proceed".toList
  | waiting {newer older : List Commit} {c : Commit}
      (hnewer : ∀ d ∈ newer, ¬ IsCut held d) (hcut : IsCut held c)
      (hfaithful : IsFaithful held c) (htip : c.sha = tip) :
      Decided held tip (newer ++ c :: older) "waiting".toList
  | abandoned {newer older : List Commit} {c : Commit}
      (hnewer : ∀ d ∈ newer, ¬ IsCut held d) (hcut : IsCut held c)
      (hgone : ¬ (IsFaithful held c ∧ c.sha = tip)) :
      Decided held tip (newer ++ c :: older) "abandoned".toList

/-- A commit that is no cut decides nothing. -/
theorem Decided.skip {tip word : Text} {c : Commit} {commits : List Commit}
    (h : Decided held tip commits word) (hc : ¬ IsCut held c) :
    Decided held tip (c :: commits) word := by
  cases h with
  | proceed h => exact .proceed (List.forall_mem_cons.mpr ⟨hc, h⟩)
  | waiting hnewer hcut hfaithful htip =>
      rw [← List.cons_append]
      exact .waiting (List.forall_mem_cons.mpr ⟨hc, hnewer⟩) hcut hfaithful htip
  | abandoned hnewer hcut hgone =>
      rw [← List.cons_append]
      exact .abandoned (List.forall_mem_cons.mpr ⟨hc, hnewer⟩) hcut hgone

/-- `pending-cut` over some commits, with the data GitHub holds of those
that are release commits. -/
theorem pendingCutLoop_decides (hgit : git.Serves repo)
    (htrees : ∀ c ∈ repo.commits, IsSha c.tree) {releases : PrReleases}
    {tip : Text} {stderr : List Text} {commits : List Commit}
    (htip : IsSha tip) (hin : ∀ c ∈ commits, c ∈ repo.commits)
    (hdata : ∀ c ∈ commits, ∀ number ∈ releaseSubject c.subject,
      releases number = some (held number).entry) :
    ∃ word, Prints word
        (pendingCutLoop git releases tip stderr (candidatesIn commits))
      ∧ Decided held tip commits word := by
  induction commits with
  | nil =>
      refine ⟨_, ⟨stderr, rfl⟩, .proceed ?_⟩
      exact List.forall_mem_nil _
  | cons c rest ih =>
      rw [List.forall_mem_cons] at hin hdata
      obtain ⟨word, hprints, hdecided⟩ := ih hin.2 hdata.2
      rw [candidatesIn_cons]
      cases hsubject : releaseSubject c.subject with
      | none =>
          refine ⟨word, hprints, hdecided.skip ?_⟩
          rintro ⟨number, hnumber, -⟩
          rw [hsubject] at hnumber
          cases hnumber
      | some number =>
      have hentry := hdata.1 number hsubject
      have hcut_iff : IsCut held c ↔ CutOf c.sha (held number) := by
        unfold IsCut
        rw [hsubject]
        simp
      have hfaithful_iff : IsFaithful held c ↔ FaithfulTo c (held number) := by
        unfold IsFaithful
        rw [hsubject]
        simp
      dsimp only
      unfold pendingCutLoop
      dsimp only
      rw [hentry]
      dsimp only
      unfold testValidReleaseCommit
      by_cases hcut : CutOf c.sha (held number)
      · obtain ⟨faithful, htest, hfaithful⟩ :=
          testFaithful_serves hgit hin.1 (htrees c hin.1) (held number)
        rw [fault_none_iff.mpr hcut, htest, if_neg (by decide)]
        dsimp only
        have hnewer : ∀ d ∈ ([] : List Commit), ¬ IsCut held d :=
          List.forall_mem_nil _
        have hiscut := hcut_iff.mpr hcut
        rw [← hfaithful_iff] at hfaithful
        have hsame : ceq c.sha tip = true ↔ c.sha = tip :=
          ceq_sha (repo.shas c hin.1) htip
        by_cases hwaits : faithful = true ∧ c.sha = tip
        · rw [if_pos (by simp [hwaits])]
          exact ⟨_, ⟨stderr, rfl⟩,
            .waiting hnewer hiscut (hfaithful.mp hwaits.1) hwaits.2⟩
        · rw [if_neg (by simpa [hsame] using hwaits)]
          have hdecided' : Decided held tip (c :: rest) "abandoned".toList :=
            .abandoned hnewer hiscut fun h => hwaits ⟨hfaithful.mpr h.1, h.2⟩
          refine ⟨_, ?_, hdecided'⟩
          split
          next => exact ⟨_, rfl⟩
          next => exact ⟨_, rfl⟩
      · have hfault : getReleaseCommitFault (held number).entry c.sha ≠ none :=
          fun h => hcut (fault_none_iff.mp h)
        refine ⟨word, ?_, hdecided.skip (fun h => hcut (hcut_iff.mp h))⟩
        obtain ⟨fault, hsome⟩ := Option.ne_none_iff_exists'.mp hfault
        rw [hsome]
        exact hprints

-- ================================================================ the steps

/-- `release-prs` prints the numbers of the release commits since the last
tag. -/
theorem releasePrs_serves (hgit : git.Serves repo)
    (htags : ∀ t ∈ repo.tags, Trimmed t.name)
    (hsubjects : ∀ c ∈ repo.commits, Trimmed c.subject)
    {tag : TagRef Text} (htag : repo.LastTag tag)
    (holdest : ∀ c ∈ (repo.since tag).getLast?, c.subject ≠ []) :
    stdoutOf (invokeReleasePrsRun git [])
      = unseen [] (candidatesIn (repo.since tag)) := by
  obtain ⟨log, hlog, hentries⟩ :=
    getRangeLog_serves hgit htags hsubjects htag holdest
  unfold invokeReleasePrsRun getReleaseCandidates candidatesIn
  rw [resolveBase_serves hgit]
  dsimp only
  rw [hlog, ← hentries]
  rfl

/-- The release bot decides, by the newest cut since the last tag as GitHub
holds it. -/
theorem guard_decides (hgit : git.Serves repo)
    (htags : ∀ t ∈ repo.tags, Trimmed t.name)
    (hsubjects : ∀ c ∈ repo.commits, Trimmed c.subject)
    (htrees : ∀ c ∈ repo.commits, IsSha c.tree)
    {tag : TagRef Text} (htag : repo.LastTag tag)
    (holdest : ∀ c ∈ (repo.since tag).getLast?, c.subject ≠ [])
    {raw : Json → Text} (hraw : ∀ t, raw (.str t) = t)
    {asked : List AskedPull} (held : Text → PullState)
    (hasked : asked.map AskedPull.line
      = hereLines (stdoutOf (invokeReleasePrsRun git [])))
    (hanswers : ∀ a ∈ asked, readLine a.line ≠ [] →
      PullAnswered a (held (readLine a.line)))
    {date : Text → Bool}
    (hplain : ∀ n ∈ stdoutOf (invokeReleasePrsRun git []), (held n).Plain date)
    {path : Text} (hpath : path ≠ []) :
    ∃ file releases word, fetchPrReleases raw asked = .ok file
      ∧ readPrReleases date path (.ok (.obj file)) = .ok releases
      ∧ Prints word (pendingCut git releases)
      ∧ Decided held repo.tip (repo.since tag) word := by
  have hprints := releasePrs_serves hgit htags hsubjects htag holdest
  have hnumbers : numbersOf AskedPull.line asked
      = unseen [] (candidatesIn (repo.since tag)) := by
    rw [← hprints]
    apply numbersOf_hereLines hasked
    intro n hn
    rw [hprints] at hn
    obtain ⟨c, -, hc⟩ := mem_releasePrs.mp hn
    exact releaseSubject_printed hc
  rw [hprints, ← hnumbers] at hplain
  have hfile : fetchPrReleases raw asked
      = .ok ((heldFile AskedPull.line asked held).map fun m =>
        (m.1, m.2.json)) :=
    fetchLoop_held AskedPull.line asked held (fetchPull raw) PullState.json
      fun a ha hline => fetchPull_answered hraw (hanswers a ha hline)
  obtain ⟨hread, hgives⟩ := readPrObject_values "pull request data".toList
    (readEntry date path) PullState.json PullState.entry (PullState.Plain date)
    hpath (fun key state => (readEntry_json key state).1)
    (fun key state => (readEntry_json key state).2)
    (heldFile AskedPull.line asked held)
  obtain ⟨releases, hreleases⟩ := hread.mpr
    ((mem_held AskedPull.line asked held _).mpr hplain)
  have hdata : ∀ c ∈ repo.since tag, ∀ number ∈ releaseSubject c.subject,
      releases number = some (held number).entry := by
    intro c hc number hnumber
    rw [hgives releases hreleases, lookup_held, hnumbers,
      if_pos (mem_releasePrs.mpr ⟨c, hc, hnumber⟩)]
    rfl
  obtain ⟨stderr, hrun⟩ : ∃ stderr, pendingCut git releases
      = pendingCutLoop git releases repo.tip stderr
        (candidatesIn (repo.since tag)) :=
    pendingCut_serves hgit htags hsubjects htag holdest
  have htip : IsSha repo.tip := by
    obtain ⟨tip, htip, hsha⟩ := List.mem_map.mp repo.tipHeld
    exact hsha ▸ repo.shas tip htip
  obtain ⟨word, hword, hdecided⟩ : ∃ word, Prints word
        (pendingCutLoop git releases repo.tip stderr
          (candidatesIn (repo.since tag)))
      ∧ Decided held repo.tip (repo.since tag) word :=
    pendingCutLoop_decides hgit htrees htip (fun c hc => (mem_range hc).1) hdata
  refine ⟨_, releases, word, hfile, hreleases, ?_, hdecided⟩
  rw [hrun]
  exact hword

/-- Pull request 7 of the cut, and nothing else. -/
def heldCut (n : Text) : PullState :=
  if n = "7".toList then
    .found {
      merged := true
      mergeCommitSha := some (shaOf 'c')
      baseRef := "main".toList
      baseRepo := "o/r".toList
      headRef := "release/next".toList
      headRepo := some "o/r".toList
      headSha := shaOf 'd'
      mergedAs := fun _ => Option.some_ne_none _
      shaOfHead := by decide } (some ([shaOf 'b'], shaOf 'd'))
  else .notFound

def askedCut : List AskedPull := [
  ⟨"7".toList,
    .ok (.obj [
      ("merged".toList, .bool true),
      ("merge_commit_sha".toList, .str (shaOf 'c')),
      ("base".toList, .obj [
        ("ref".toList, .str "main".toList),
        ("repo".toList, .obj [("full_name".toList, .str "o/r".toList)])]),
      ("head".toList, .obj [
        ("ref".toList, .str "release/next".toList),
        ("repo".toList, .obj [("full_name".toList, .str "o/r".toList)]),
        ("sha".toList, .str (shaOf 'd'))])]),
    .ok (.obj [
      ("parents".toList, .arr [.obj [("sha".toList, .str (shaOf 'b'))]]),
      ("commit".toList, .obj [("tree".toList, .obj [
        ("sha".toList, .str (shaOf 'd'))])])])⟩]

end Culture

open SoftHyphen

theorem guard_decides_cut : ∃ file releases word,
    fetchPrReleases Json.text askedCut = .ok file
      ∧ readPrReleases (fun t => t.contains ':') "f".toList (.ok (.obj file))
        = .ok releases
      ∧ Prints word (pendingCut cut.git releases)
      ∧ Decided heldCut cut.tip (cut.since first) word := by
  have hprinted : stdoutOf (invokeReleasePrsRun cut.git []) = ["7".toList] := by
    decide
  have hlast : cut.LastTag first :=
    ⟨List.mem_cons_self, latest_iff.mp (by decide)⟩
  apply guard_decides cut.git_serves (by decide) (by decide)
    (by decide) hlast (by decide) Json.text_str heldCut
  · rw [hprinted]
    decide
  · intro a ha _
    obtain rfl := List.mem_singleton.mp ha
    exact .found _ _ _ _ _ _ ⟨rfl, rfl, rfl, rfl, rfl, rfl, rfl⟩ ⟨rfl, rfl⟩
  · rw [hprinted]
    intro n hn
    obtain rfl := List.mem_singleton.mp hn
    unfold PullState.Plain
    decide
  · decide

end RestifyCapl.Ci
