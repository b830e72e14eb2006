/-
Every tag the bot makes can be released (`tags_have_notes`). The tag is on
the merge of a pull request whose head step `build` of release-pr.yml made
of a run of `generate`; job `validate` of release.yml lets it through, and
the notes it takes from the commit are the section of that run.

The commit that is merged is not the head of the pull request. What ties
the two is `release-commit`, which answers `tag` only where the parent and
the tree are the same (`cut_of_tag`); so the first parent, by which `notes`
finds the section, is the base of the cut. That the bot tags nothing else
is carried over the run by `Backed`, with what job `tag` knows: its commit
was the tip of main, and step `version` names a version.
-/
import RestifyCapl.Ci.Validate
import RestifyCapl.Ci.Proofs.GuardDecides
import RestifyCapl.Ci.Proofs.Published
import RestifyCapl.Ci.Proofs.ReleasedOnce

namespace RestifyCapl.Ci

open Lib

variable {git : Repository → Git} {sortV : List Text → List Text}
variable {repo : Repository} {file : Text → Text}

-- ==================================================================== the tag

/-- A valid tag has the form the job asks for. -/
theorem reReleaseTag_of_valid {name : Text} (h : Valid name) :
    ∃ fields, reReleaseTag name = some fields
      ∧ fields.any aboveMaxField = false := by
  obtain ⟨v, hv⟩ := h
  obtain ⟨⟨major, minor, patch⟩, hshape⟩ : ∃ shape, tagShape name = some shape := by
    cases hshape : tagShape name with
    | none => simp [readTag, hshape] at hv
    | some shape => exact ⟨shape, rfl⟩
  simp only [readTag, hshape] at hv
  unfold reReleaseTag
  simp only [hshape]
  by_cases hzero : [major, minor, patch].any hasLeadingZero = true
  · rw [if_pos hzero] at hv
    cases hv
  · rw [if_neg hzero] at hv
    by_cases habove : [major, minor, patch].any aboveMaxField = true
    · rw [if_pos habove] at hv
      cases hv
    · rw [if_neg hzero]
      exact ⟨_, rfl, Bool.eq_false_iff.mpr habove⟩

theorem readIds_commit {git : Git} (hgit : git.Validates repo) {c : Commit}
    (hc : c ∈ repo.commits) : readIds git c.sha = c.sha :: c.parents := by
  have hclean : ∀ id ∈ c.sha :: c.parents, IsSha id := by
    rw [List.forall_mem_cons]
    exact ⟨repo.shas c hc, fun p hp => parents_sha hc hp⟩
  have hline : '\n' ∉ [' '].intercalate (c.sha :: c.parents) := by
    intro hmem
    rcases mem_intercalate hmem with hmem | ⟨id, hid, hmem⟩
    · exact absurd hmem (by decide)
    · exact not_mem_of_isSha (hclean id hid) (by decide) hmem
  have hprint : printLines [[' '].intercalate (c.sha :: c.parents)]
      = [' '].intercalate (c.sha :: c.parents) ++ ['\n'] := List.append_nil _
  unfold readIds
  rw [hgit.parents c hc, hprint]
  show readWords ((lines (_ ++ ['\n'])).headD []) = _
  rw [lines_append_newline, lines_line hline]
  apply filter_splitOnP_intercalate (by decide)
  intro id hid
  refine ⟨sha_ne_nil (hclean id hid), fun d hd => ?_⟩
  have hword := (isWord_of_sha (hclean id hid)).2 d hd
  unfold isWordBlank at hword
  simp only [Bool.or_eq_false_iff] at hword
  rw [Bool.or_eq_false_iff]
  exact hword.1.1

/-- Step `tag`, on a valid tag of a commit of main that has a parent. -/
theorem validateTag_eq {git : Git} (hgit : git.Validates repo) {c : Commit}
    (hc : c ∈ repo.commits) (hmain : c.sha ∈ repo.mainLine)
    (hparents : c.parents ≠ []) {name : Text} (hvalid : Valid name)
    (lookup : GhAnswer) :
    validateTag git ⟨name, c.sha⟩ lookup
      = (checkUnpublished name lookup).map fun _ => (name, name.drop 1) := by
  obtain ⟨fields, hfields, habove⟩ := reReleaseTag_of_valid hvalid
  have hancestor : repo.IsAncestor c.sha repo.tip := by
    obtain ⟨d, hd, hsha⟩ := Repository.mem_mainLine.mp hmain
    rw [← hsha]
    exact firstParents_reachable (List.mem_singleton_self _) d hd
  have hids : ¬ (readIds git c.sha).length < 2 := by
    rw [readIds_commit hgit hc, List.length_cons]
    have := List.length_pos_iff.mpr hparents
    omega
  unfold validateTag
  rw [hfields]
  dsimp only
  rw [if_neg (by rw [habove]; exact Bool.false_ne_true),
    if_neg (not_not.mpr ((hgit.ancestor c hc).mpr hancestor)), if_neg hids]
  cases checkUnpublished name lookup <;> rfl

section Culture

variable [Culture]

-- ==================================================================== the cut

/-- The head that step `build` makes: a commit on the base alone, with the
generated file in its tree. `file` is the CHANGELOG.md of a tree. -/
inductive BuiltHead (file : Text → Text) : List Text → Text → Prop
  | built (cut : Cut) {text tree : Text} {g : Generated} (htree : IsSha tree)
      (hrun : cut.generate [] text = .ok g) (hfile : file tree = g.output) :
      BuiltHead file [cut.base] tree

/-- Only the bot builds the head of release/next, and of a branch whose name
the script takes for this one. -/
def HeadBuilt (file : Text → Text) : PullState → Prop
  | .found p (some (parents, tree)) =>
      ceq p.headRef "release/next".toList = true →
        p.headRepo.any (ceq · p.baseRepo) = true → BuiltHead file parents tree
  | _ => True

/-- A faithful merge of such a head is on the base too, with its tree. -/
theorem HeadBuilt.commit {state : PullState} {c : Commit}
    (hc : c ∈ repo.commits) (hctree : IsSha c.tree) (h : HeadBuilt file state)
    (hcut : CutOf c.sha state) (hfaithful : FaithfulTo c state) :
    BuiltHead file c.parents c.tree := by
  cases hfaithful with
  | head p parent headParent headTree hparents hparent htree =>
      cases hcut with
      | merged _ _ _ _ _ hhead hrepo =>
          have hbuilt := h hhead hrepo
          cases hbuilt with
          | @built cut text _ g hsha hrun hfile =>
              have hsame : IsSha parent :=
                parents_sha hc (by rw [hparents]; exact List.mem_cons_self)
              rw [ceq_sha cut.sha hsame] at hparent
              rw [ceq_sha hsha hctree] at htree
              subst hparent htree
              rw [hparents]
              exact .built cut hsha hrun hfile

/-- What `release-commit` has checked of a commit it answers `tag` for. -/
theorem cut_of_tag {git : Git} (hgit : git.Serves repo) {c : Commit}
    (hc : c ∈ repo.commits) (htree : IsSha c.tree) {number : Option Text}
    {state : PullState} (h : Prints "tag".toList
      (releaseCommit git (fetched number state.entry) c.sha)) :
    CutOf c.sha state ∧ FaithfulTo c state := by
  obtain ⟨faithful, htest, hfaithful⟩ := testFaithful_serves hgit hc htree state
  unfold releaseCommit at h
  split at h
  next => exact absurd h not_prints_error
  next subject _ =>
    split at h
    next => exact absurd (prints_ok.mp h) (by decide)
    next n _ =>
      split at h
      next => exact absurd h not_prints_error
      next entry hentry =>
        obtain rfl : state.entry = entry := by
          unfold fetched at hentry
          split at hentry
          next => exact Option.some.inj hentry
          next => cases hentry
        split at h
        next => exact absurd h not_prints_error
        next => exact absurd (prints_ok.mp h) (by decide)
        next hnone =>
          rw [htest] at h
          refine ⟨fault_none_iff.mp hnone, hfaithful.mp ?_⟩
          cases faithful with
          | true => rfl
          | false => exact absurd (prints_ok.mp h) (by decide)

-- ==================================================================== the run

/-- A commit of the repository is the merge of a cut. -/
def IsBuilt (file : Text → Text) (repo : Repository) (sha : Text) : Prop :=
  ∃ c ∈ repo.commits, c.sha = sha ∧ BuiltHead file c.parents c.tree

theorem IsBuilt.mono {repo' : Repository} {sha : Text}
    (hsub : repo.commits ⊆ repo'.commits) (h : IsBuilt file repo sha) :
    IsBuilt file repo' sha := by
  obtain ⟨c, hc, hsha, hbuilt⟩ := h
  exact ⟨c, hsub hc, hsha, hbuilt⟩

/-- The entry that a job `classify` was given is what GitHub held. -/
def Reported (file : Text → Text) (a : TagAction) : Prop :=
  ∀ sha entry, a = .classify sha entry →
    ∃ state, entry = PullState.entry state ∧ HeadBuilt file state

/-- The name a job has for the tag is a version's. -/
def NamesVersion : TagJob → Prop
  | .versioned _ _ name => Valid name
  | _ => True

/-- A version tag on a commit of main that is the merge of a cut. -/
structure IsBacked (file : Text → Text) (repo : Repository)
    (tag : TagRef Text) : Prop where
  built : IsBuilt file repo tag.commit
  onMain : tag.commit ∈ repo.mainLine
  valid : Valid tag.name

theorem IsBacked.mono {repo' : Repository} {tag : TagRef Text}
    (hsub : repo.commits ⊆ repo'.commits)
    (hmain : repo.mainLine ⊆ repo'.mainLine) (h : IsBacked file repo tag) :
    IsBacked file repo' tag := ⟨h.built.mono hsub, hmain h.onMain, h.valid⟩

/-- The bot makes only such tags. -/
structure Backed (file : Text → Text) (h : List (TagAction × TagAnswer))
    (s : Tagging) : Prop where
  classified : ∀ run ∈ s.classified, run.outcome = .tag →
    IsBuilt file s.repo run.sha
  job : JobSaw (IsBuilt file s.repo) (· ∈ s.repo.mainLine) s.job
  name : NamesVersion s.job
  created : ∀ tag ∈ createdTags h, IsBacked file s.repo tag

theorem Move.commits {s s' : Tagging} {a : TagAction} {b : TagAnswer}
    (hm : Move git sortV s a b s') : s.repo.commits ⊆ s'.repo.commits := by
  cases hm with
  | pushed => exact List.subset_cons_self _ _
  | classified | notForTag | began | notBegun | onTip | abandoned | versioned
  | unversioned | created | refused | released | alreadyReleased | stopped =>
      exact List.Subset.refl _

theorem Move.mainLine {s s' : Tagging} {a : TagAction} {b : TagAnswer}
    (hm : Move git sortV s a b s') : s.repo.mainLine ⊆ s'.repo.mainLine := by
  cases hm with
  | pushed c h =>
      show _ ⊆ (s.repo.push c h).mainLine
      rw [Repository.mainLine_push]
      exact List.subset_cons_self _ _
  | classified | notForTag | began | notBegun | onTip | abandoned | versioned
  | unversioned | created | refused | released | alreadyReleased | stopped =>
      exact List.Subset.refl _

/-- A step that makes no tag. -/
theorem Backed.frame {s s' : Tagging} {h : List (TagAction × TagAnswer)}
    {e : TagAction × TagAnswer} (hb : Backed file h s)
    (hsub : s.repo.commits ⊆ s'.repo.commits)
    (hmain : s.repo.mainLine ⊆ s'.repo.mainLine) (hcreated : createdIn e = none)
    (hclassified : ∀ run ∈ s'.classified, run.outcome = .tag →
      IsBuilt file s'.repo run.sha)
    (hjob : JobSaw (IsBuilt file s'.repo) (· ∈ s'.repo.mainLine) s'.job)
    (hname : NamesVersion s'.job) : Backed file (h ++ [e]) s' where
  classified := hclassified
  job := hjob
  name := hname
  created := by
    rw [createdTags_snoc, hcreated, Option.toList_none, List.append_nil]
    exact fun tag htag => (hb.created tag htag).mono hsub hmain

omit [Culture] in
theorem beginJob_unnamed {run : Classified} {job : TagJob}
    (h : beginJob sortV repo run = some job) : NamesVersion job := by
  rcases beginJob_cases h with ⟨-, -, rfl⟩ | ⟨name, -, rfl⟩ <;> trivial

theorem Backed.move (hgit : ∀ repo, (git repo).Serves repo) {s s' : Tagging}
    {h : List (TagAction × TagAnswer)} (hb : Backed file h s) {a : TagAction}
    {b : TagAnswer} (htrees : ∀ c ∈ s.repo.commits, IsSha c.tree)
    (hreported : Reported file a) (hm : Move git sortV s a b s') :
    Backed file (h ++ [(a, b)]) s' := by
  have hsub := hm.commits
  have hmain := hm.mainLine
  have hclassified : ∀ run ∈ s.classified, run.outcome = .tag →
      IsBuilt file s'.repo run.sha :=
    fun run hrun htag => (hb.classified run hrun htag).mono hsub
  have hjob : JobSaw (IsBuilt file s'.repo) (· ∈ s'.repo.mainLine) s.job :=
    hb.job.mono (fun _ hbuilt => hbuilt.mono hsub) fun _ ht => hmain ht
  have hname := hb.name
  cases hm with
  | pushed | notForTag | notBegun =>
      exact hb.frame hsub hmain rfl hclassified hjob hname
  | abandoned | unversioned | refused | released | alreadyReleased | stopped =>
      exact hb.frame hsub hmain rfl hclassified trivial trivial
  | classified sha entry c run hc hclassify =>
      refine hb.frame hsub hmain rfl ?_ hjob hname
      intro run' hrun' htag
      rcases List.mem_append.mp hrun' with hold | hnew
      · exact hclassified run' hold htag
      · obtain rfl := List.mem_singleton.mp hnew
        obtain ⟨hsha, hprints⟩ := classify_tag hclassify htag
        obtain ⟨state, rfl, hhead⟩ := hreported sha entry rfl
        have hmem : c ∈ s.repo.commits := List.mem_of_find?_eq_some hc
        obtain ⟨hcut, hfaithful⟩ :=
          cut_of_tag (hgit s.repo) hmem (htrees c hmem) hprints
        exact ⟨c, hmem, hsha.symm,
          hhead.commit hmem (htrees c hmem) hcut hfaithful⟩
  | began k run job hk hbegin =>
      refine hb.frame hsub hmain rfl hclassified ?_ ?_
      · exact beginJob_saw hbegin (hclassified run (List.mem_of_getElem? hk))
      · exact beginJob_unnamed hbegin
  | onTip run clone hat htip =>
      refine hb.frame hsub hmain rfl hclassified ?_ trivial
      rw [hat] at hjob
      obtain ⟨rest, hline⟩ := s.repo.mainLine_tip
      refine ⟨hjob, ?_⟩
      show run.sha ∈ s.repo.mainLine
      rw [hline, htip]
      exact List.mem_cons_self
  | versioned names run clone label name hat hnext =>
      rw [hat] at hjob
      obtain ⟨v, rfl, habove⟩ := nextTag_above (hgit clone) hnext
      exact hb.frame hsub hmain rfl hclassified hjob
        (valid_tagName habove.inRange)
  | created run clone name hat =>
      rw [hat] at hjob hname
      exact {
        classified := hclassified
        job := trivial
        name := trivial
        created := by
          rw [createdTags_snoc, List.forall_mem_append]
          refine ⟨fun tag htag => (hb.created tag htag).mono hsub hmain, ?_⟩
          exact List.forall_mem_singleton.mpr ⟨hjob.1, hjob.2, hname⟩ }

theorem backed_run (hgit : ∀ repo, (git repo).Serves repo) {s₀ s : Tagging}
    {h : List (TagAction × TagAnswer)} (hstart : (tagging git sortV).start s₀)
    (hrun : (tagging git sortV).Run s₀ h s)
    (htrees : ∀ c ∈ s.repo.commits, IsSha c.tree)
    (hreported : ∀ e ∈ h, Reported file e.1) : Backed file h s := by
  obtain ⟨hnone, hfree⟩ := hstart
  induction hrun with
  | nil =>
      exact {
        classified := by
          rw [hnone]
          exact List.forall_mem_nil _
        job := by
          rw [hfree]
          trivial
        name := by
          rw [hfree]
          trivial
        created := List.forall_mem_nil _ }
  | snoc hrun hst ih =>
      have hm := step_move hst
      rw [List.forall_mem_append, List.forall_mem_singleton] at hreported
      have htrees' := fun c hc => htrees c (hm.commits hc)
      exact (ih htrees' hreported.1).move hgit htrees' hreported.2 hm

-- ==================================================================== the job

/-- Job `validate` lets the tag through where GitHub has no release of it,
with the section of the cut for notes, and stops where it has one. -/
structure Publishes (validated : GhAnswer → Except Text Validated)
    (tag : TagRef Text) (g : Generated) : Prop where
  notes : ∃ (heading : Text) (published development : List Text),
    g.sectionOutput = joinLines (heading :: [] :: published
        ++ partLines "Development" development) ++ ['\n']
      ∧ ∀ code err, checkUnpublished tag.name (.failed code err) = .ok () →
        validated (.failed code err) = .ok ⟨tag.name, tag.name.drop 1,
          ⟨joinLines published ++ ['\n'], .ok (notesSummary .tag heading)⟩⟩
  once : ∀ release, ∃ e, validated (.ok release) = .error e

/-- `notes` for a tag on a cut gets the section of the cut. -/
theorem notes_of_cut {git : Git} {cut : Cut} {text sha : Text} {g : Generated}
    (hrun : cut.generate [] text = .ok g)
    (hparent : getGitOutput git (revParseParent sha) = .ok cut.base) :
    ∃ (heading : Text) (published development : List Text),
      g.sectionOutput = joinLines (heading :: [] :: published
        ++ partLines "Development" development) ++ ['\n']
      ∧ invokeNotesRun git true .tag sha g.output
        = .ok ⟨joinLines published ++ ['\n'], .ok (notesSummary .tag heading)⟩ := by
  obtain ⟨range, repo, cr, front, tail, published, -, -, hlayout⟩ :=
    layout_of_generate hrun
  have htest := testArguments_of_generate hrun
  have hresolved := hlayout.resolved (isHeadOf_heading htest hlayout.isCr)
    (generatedHeading_last cut.short (fits_date htest)) hparent
  refine ⟨cut.heading, published, (getEntries range repo).development, ?_, ?_⟩
  · rw [hlayout.sectionOutput, getSectionLines_eq, hlayout.preview]
    rfl
  · unfold invokeNotesRun
    rw [hresolved]
    dsimp only
    rw [joinLines_lines]
    rfl

/-- A valid tag on the merge of a cut is published with its section. -/
theorem publishes_of_cut {git : Git} (hgit : git.Validates repo) {c : Commit}
    (hc : c ∈ repo.commits) (hmain : c.sha ∈ repo.mainLine) {cut : Cut}
    (hparents : c.parents = [cut.base]) {name text : Text} {g : Generated}
    (hvalid : Valid name) (hrun : cut.generate [] text = .ok g) :
    Publishes (fun lookup => validate git ⟨name, c.sha⟩ lookup g.output)
      ⟨name, c.sha⟩ g := by
  have hne : c.parents ≠ [] := by
    rw [hparents]
    exact List.cons_ne_nil _ _
  have hvalidate := validateTag_eq hgit hc hmain hne hvalid
  have hparent : getGitOutput git (revParseParent c.sha) = .ok cut.base := by
    rw [getGitOutput_success (hgit.parent c hc cut.base (by rw [hparents]; rfl))]
    simp [printLines, (isSha_trimmed cut.sha).trim_line]
  obtain ⟨heading, published, development, hsection, hnotes⟩ :=
    notes_of_cut hrun hparent
  constructor
  · refine ⟨heading, published, development, hsection, ?_⟩
    intro code err hfree
    unfold validate
    rw [hvalidate, hfree]
    dsimp only [Except.map]
    rw [hnotes]
  · intro release
    unfold validate
    rw [hvalidate]
    exact ⟨_, rfl⟩

-- ================================================================== the result

/-- Every tag the bot makes can be released: it is on main, on the merge of a
cut, whose CHANGELOG.md is the generated one, and job `validate` takes the
section of this cut from it for the notes. `file` is the CHANGELOG.md of a
tree; the heads of release/next are the bot's. -/
theorem tags_have_notes (hgit : ∀ repo, (git repo).Serves repo)
    {s₀ s : Tagging} {h : List (TagAction × TagAnswer)}
    (hstart : (tagging git sortV).start s₀)
    (hrun : (tagging git sortV).Run s₀ h s)
    (htrees : ∀ c ∈ s.repo.commits, IsSha c.tree) {file : Text → Text}
    (hreported : ∀ e ∈ h, Reported file e.1) {job : Git}
    (hjob : job.Validates s.repo) {tag : TagRef Text}
    (htag : tag ∈ createdTags h) :
    tag.commit ∈ s.repo.mainLine
      ∧ ∃ c ∈ s.repo.commits, ∃ (cut : Cut) (text : Text) (g : Generated),
        c.sha = tag.commit ∧ c.parents = [cut.base]
        ∧ cut.generate [] text = .ok g ∧ file c.tree = g.output
        ∧ Publishes (fun lookup => validate job tag lookup (file c.tree)) tag
          g := by
  obtain ⟨⟨c, hc, hsha, hbuilt⟩, hmain, hvalid⟩ :=
    (backed_run hgit hstart hrun htrees hreported).created tag htag
  refine ⟨hmain, ?_⟩
  obtain ⟨name, commit⟩ := tag
  obtain rfl : c.sha = commit := hsha
  generalize hparents : c.parents = parents at hbuilt
  cases hbuilt with
  | @built cut text _ g _ hgenerate hfile =>
      refine ⟨c, hc, cut, text, g, rfl, hparents, hgenerate, hfile, ?_⟩
      rw [hfile]
      exact publishes_of_cut hjob hc hmain hparents hvalid hgenerate

end Culture

open SoftHyphen

/-- The merge of pull request 7 is tagged. -/
def tagCut : List TagAction :=
  [.classify (shaOf 'c') (heldCut "7".toList).entry, .begin 0, .checkTip,
    .version ["bump:minor".toList], .create]

theorem tagCut_runs :
    ((tagging Repository.git sortByVersion).exec beforeTag tagCut).isSome
      = true := by
  decide

def cutTagged : List (TagAction × TagAnswer) × Tagging :=
  ((tagging Repository.git sortByVersion).exec beforeTag tagCut).get tagCut_runs

theorem cutTagged_created : ⟨"v1.1.0".toList, shaOf 'c'⟩ ∈ createdTags cutTagged.1 := by
  have hcreated : (createdTags cutTagged.1).map (fun tag => (tag.name, tag.commit))
      = [("v1.1.0".toList, shaOf 'c')] := by
    decide
  obtain ⟨⟨name, commit⟩, htag, heq⟩ := List.mem_map.mp
    (hcreated ▸ List.mem_singleton_self _)
  cases heq
  exact htag

theorem tags_have_notes_cutTagged : ∃ (changelog : Text) (g : Generated),
    g.output = changelog
      ∧ Publishes (fun lookup => validate cutTagged.2.repo.gitOfJob
          ⟨"v1.1.0".toList, shaOf 'c'⟩ lookup changelog)
        ⟨"v1.1.0".toList, shaOf 'c'⟩ g := by
  obtain ⟨g, hg⟩ := exists_of_toBool
    (x := (firstCut releasedFile).generate [] releasedFile) (by decide)
  have hexec : (tagging Repository.git sortByVersion).exec beforeTag tagCut
      = some (cutTagged.1, cutTagged.2) := (Option.some_get tagCut_runs).symm
  have hreported : ∀ e ∈ cutTagged.1, Reported (fun _ => g.output) e.1 := by
    intro e he sha entry hclassify
    have hmem : e.1 ∈ tagCut := by
      rw [← Machine.exec_actions _ hexec]
      exact List.mem_map_of_mem he
    rw [hclassify] at hmem
    unfold tagCut at hmem
    simp only [List.mem_cons, TagAction.classify.injEq, List.not_mem_nil,
      reduceCtorEq, or_false] at hmem
    refine ⟨heldCut "7".toList, hmem.2, ?_⟩
    unfold heldCut HeadBuilt
    intro _ _
    exact .built (firstCut releasedFile) (isSha_shaOf rfl) hg rfl
  have hstart : (tagging Repository.git sortByVersion).start beforeTag :=
    ⟨rfl, rfl⟩
  obtain ⟨-, _, _, _, _, g', _, _, _, hfile, hpublishes⟩ :=
    tags_have_notes (fun repo => repo.git_serves) hstart (.of_exec hexec)
      (by decide) hreported
      (Repository.gitOfJob_validates _) cutTagged_created
  exact ⟨g.output, g', hfile.symm, hpublishes⟩

end RestifyCapl.Ci
