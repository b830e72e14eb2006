/-
Versions go up along main. Whatever the order in which commits reach main,
runs of the tagging bot are classified, wait, start again and stop, its
tags are on main with the higher version on the later commit
(`versions_along_main`).

The argument needs both looks of job `tag`. That the commit is the tip
(step `tip`) puts every tag at or behind it; that the highest tag is not
on it (step `guard`) puts every tag behind it, since the highest is the
foremost. From then on the concurrency group keeps the tags as they are,
and main only grows at its other end, until the tag is made.

A name of the shape that `Get-LatestVersion` ignores would blind step
`guard`, so the tags at the start have none.
-/
import RestifyCapl.Ci.Tagging
import RestifyCapl.Ci.Proofs.PendingCut
import RestifyCapl.Ci.Proofs.Versions

namespace RestifyCapl.Ci

open Lib

variable {git : Repository → Git} {sortV : List Text → List Text}
variable {repo : Repository}

-- ================================================================ main line

namespace Repository

/-- The commits of main, newest first. -/
def mainLine (repo : Repository) : List Text :=
  (firstParents repo.commits (some repo.tip)).map Commit.sha

/-- `sha` is on main and `older` strictly behind it. -/
def Ahead (repo : Repository) (sha older : Text) : Prop :=
  [sha, older].Sublist repo.mainLine

theorem mainLine_push {c : Commit} (h : repo.Extends c) :
    (repo.push c h).mainLine = c.sha :: repo.mainLine := by
  show (firstParents (c :: repo.commits) (some c.sha)).map Commit.sha = _
  unfold firstParents
  rw [if_pos rfl, h.2.2.1]
  rfl

theorem mainLine_nodup (repo : Repository) : repo.mainLine.Nodup :=
  repo.distinct.sublist ((firstParents_sublist _ _).map _)

theorem mainLine_tip (repo : Repository) :
    ∃ rest, repo.mainLine = repo.tip :: rest := by
  obtain ⟨c, rest, hline, hc⟩ := firstParents_head repo.tipHeld
  refine ⟨rest.map Commit.sha, ?_⟩
  unfold mainLine
  rw [hline, List.map_cons, hc]

/-- What is on main and not its tip is behind the tip. -/
theorem tip_ahead {sha : Text} (h : sha ∈ repo.mainLine)
    (hne : sha ≠ repo.tip) : repo.Ahead repo.tip sha := by
  obtain ⟨rest, hline⟩ := repo.mainLine_tip
  unfold Ahead
  rw [hline] at h ⊢
  rcases List.mem_cons.mp h with heq | hmem
  · exact absurd heq hne
  · exact (List.singleton_sublist.mpr hmem).cons_cons _

/-- Nothing is ahead of the tip. -/
theorem not_ahead_tip {sha : Text} : ¬ repo.Ahead sha repo.tip := by
  intro h
  obtain ⟨rest, hline⟩ := repo.mainLine_tip
  have hnodup := repo.mainLine_nodup
  unfold Ahead at h
  rw [hline] at h hnodup
  have hnot := (List.nodup_cons.mp hnodup).1
  cases h with
  | cons _ hsub => exact hnot (hsub.subset (by simp))
  | cons_cons _ hsub => exact hnot (hsub.subset (by simp))

theorem Ahead.push {sha older : Text} {c : Commit} (h : repo.Extends c)
    (ha : repo.Ahead sha older) : (repo.push c h).Ahead sha older := by
  unfold Ahead
  rw [mainLine_push]
  exact ha.cons _

end Repository

-- ============================================================ the invariant

/-- The tags of the shape of a version are valid and on main, the higher
version on the later commit. -/
structure AlongMain (repo : Repository) : Prop where
  valid : ∀ t ∈ repo.tags, isVersionTag t.name = true → Valid t.name
  onMain : ∀ t ∈ repo.tags, Valid t.name → t.commit ∈ repo.mainLine
  ordered : ∀ t ∈ repo.tags, ∀ t' ∈ repo.tags, Valid t.name →
    Valid t'.name → shapedVersion t.name < shapedVersion t'.name →
    repo.Ahead t'.commit t.commit

/-- Every version tag is behind the commit. -/
def Foremost (repo : Repository) (sha : Text) : Prop :=
  sha ∈ repo.mainLine
    ∧ ∀ t ∈ repo.tags, Valid t.name → repo.Ahead sha t.commit

/-- What job `tag` has found out so far. -/
def JobKnows (sortV : List Text → List Text) (repo : Repository) :
    TagJob → Prop
  | .free => True
  | .guarded run clone =>
      clone.tags = repo.tags ∧ guardStep sortV repo.tags run.sha = .tag
  | .onTip run clone => clone.tags = repo.tags ∧ Foremost repo run.sha
  | .versioned run _ name =>
      Foremost repo run.sha
        ∧ ∃ v, name = tagName v ∧ Above (tagList repo.tags) v
  | .ready tag => tag ∈ repo.tags ∧ Valid tag.name

theorem AlongMain.push {c : Commit} (h : repo.Extends c)
    (ha : AlongMain repo) : AlongMain (repo.push c h) where
  valid := ha.valid
  onMain t ht hv := by
    rw [Repository.mainLine_push]
    exact List.mem_cons_of_mem _ (ha.onMain t ht hv)
  ordered t ht t' ht' hv hv' hlt :=
    (ha.ordered t ht t' ht' hv hv' hlt).push h

theorem Foremost.push {sha : Text} {c : Commit} (h : repo.Extends c)
    (hf : Foremost repo sha) : Foremost (repo.push c h) sha := by
  refine ⟨?_, fun t ht hv => (hf.2 t ht hv).push h⟩
  rw [Repository.mainLine_push]
  exact List.mem_cons_of_mem _ hf.1

theorem JobKnows.push {job : TagJob} {c : Commit} (h : repo.Extends c)
    (hj : JobKnows sortV repo job) :
    JobKnows sortV (repo.push c h) job := by
  cases job with
  | free => trivial
  | guarded => exact hj
  | onTip => exact ⟨hj.1, hj.2.push h⟩
  | versioned => exact ⟨hj.1.push h, hj.2⟩
  | ready => exact hj

/-- Where the highest tag is not on the tip, all of them are behind it. -/
theorem foremost_tip (hsort : VersionSort sortV) (ha : AlongMain repo)
    (hguard : guardStep sortV repo.tags repo.tip = .tag) :
    Foremost repo repo.tip := by
  refine ⟨?_, fun t ht hv => ?_⟩
  · obtain ⟨rest, hline⟩ := repo.mainLine_tip
    rw [hline]
    exact List.mem_cons_self
  · apply Repository.tip_ahead (ha.onMain t ht hv)
    intro htip
    have hmem : t.name ∈ tagList repo.tags := List.mem_map_of_mem ht
    cases hlast : keepLast isVersionTag (sortV (tagList repo.tags)) with
    | none =>
        have := keepLast_none_iff.mp hlast t.name
          ((hsort.perm _).mem_iff.mpr hmem)
        rw [hv.shaped] at this
        cases this
    | some name =>
        have hhighest := (keepLast_sortV_iff hsort).mp hlast
        obtain ⟨top, htop, rfl⟩ := List.mem_map.mp hhighest.1
        have hne : top.commit ≠ repo.tip := by
          intro heq
          have htagged : guardStep sortV repo.tags repo.tip = .tagged :=
            (guardStep_tagged_iff hsort repo.tagsDistinct).mpr
              ⟨top.name, hhighest, heq ▸ htop⟩
          rw [hguard] at htagged
          cases htagged
        have htopValid := ha.valid top htop hhighest.2.1
        have hle := (hhighest.valid htopValid).2.2 t.name hmem hv
        rcases lt_or_eq_of_le hle with hlt | heq
        · have hahead := ha.ordered t ht top htop hv htopValid hlt
          rw [htip] at hahead
          exact Repository.not_ahead_tip hahead
        · have hsame : t = top := by
            apply List.inj_on_of_nodup_map repo.tagsDistinct ht htop
            rw [hv.name_eq, heq, ← htopValid.name_eq]
          exact hne (hsame ▸ htip)

-- =============================================================== a new tag

theorem valid_tagName {v : Version} (h : InRange v) : Valid (tagName v) :=
  ⟨v, by rw [readTag_tagName h]⟩

theorem shapedVersion_tagName {v : Version} (h : InRange v) :
    shapedVersion (tagName v) = v :=
  (readTag_version (readTag_eq_some_iff.mpr ⟨h, rfl⟩)).2.symm

/-- A version above all is above the version of every valid tag. -/
theorem Above.shaped {names : List Text} {v : Version} {name : Text}
    (h : Above names v) (hmem : name ∈ names) (hv : Valid name) :
    shapedVersion name < v := by
  apply h.greater
  obtain ⟨w, hw⟩ := id hv
  refine ⟨?_, hv.name_eq ▸ hmem⟩
  rw [← (readTag_version hw).2]
  exact inRange_of_readTag hw

theorem AlongMain.addTag {sha : Text} {v : Version}
    (h : repo.Takes ⟨tagName v, sha⟩) (ha : AlongMain repo)
    (hf : Foremost repo sha) (hv : Above (tagList repo.tags) v) :
    AlongMain (repo.addTag ⟨tagName v, sha⟩ h) where
  valid := List.forall_mem_cons.mpr
    ⟨fun _ => valid_tagName hv.inRange, ha.valid⟩
  onMain := List.forall_mem_cons.mpr ⟨fun _ => hf.1, ha.onMain⟩
  ordered t ht t' ht' hvalid hvalid' hlt := by
    have hold : ∀ u ∈ repo.tags, Valid u.name → shapedVersion u.name < v :=
      fun u hu => hv.shaped (List.mem_map_of_mem hu)
    have hnew : shapedVersion (tagName v) = v :=
      shapedVersion_tagName hv.inRange
    rcases List.mem_cons.mp ht with rfl | ht <;>
      rcases List.mem_cons.mp ht' with rfl | ht'
    · exact absurd hlt (lt_irrefl _)
    · rw [hnew] at hlt
      exact absurd (hold t' ht' hvalid') (lt_asymm hlt)
    · exact hf.2 t ht hvalid
    · exact ha.ordered t ht t' ht' hvalid hvalid' hlt

-- ================================================================= the runs

/-- The invariant of the state. -/
structure BotInv (sortV : List Text → List Text) (s : Tagging) : Prop where
  along : AlongMain s.repo
  job : JobKnows sortV s.repo s.job

/-- Job `tag` goes past step `guard`, or on with the tag it finds. -/
theorem beginJob_cases {run : Classified} {job : TagJob}
    (h : beginJob sortV repo run = some job) :
    (run.outcome = .tag ∧ guardStep sortV repo.tags run.sha = .tag
        ∧ job = .guarded run repo)
      ∨ ∃ name, existingStep sortV repo.tags run.sha = some name
        ∧ job = .ready ⟨name, run.sha⟩ := by
  have hready : ∀ {job}, (existingStep sortV repo.tags run.sha).map
      (fun name => TagJob.ready ⟨name, run.sha⟩) = some job →
      ∃ name, existingStep sortV repo.tags run.sha = some name
        ∧ job = .ready ⟨name, run.sha⟩ := by
    intro job hjob
    obtain ⟨name, hname, rfl⟩ := Option.map_eq_some_iff.mp hjob
    exact ⟨name, hname, rfl⟩
  unfold beginJob at h
  cases hrun : run.outcome with
  | tagged =>
      rw [hrun] at h
      exact .inr (hready h)
  | tag =>
      rw [hrun] at h
      dsimp only at h
      cases hguard : guardStep sortV repo.tags run.sha with
      | tag =>
          rw [hguard] at h
          cases h
          exact .inl ⟨rfl, rfl, rfl⟩
      | tagged =>
          rw [hguard] at h
          exact .inr (hready h)

/-- What job `tag` knows at its begin. -/
theorem beginJob_knows (hsort : VersionSort sortV) (ha : AlongMain repo)
    {run : Classified} {job : TagJob}
    (h : beginJob sortV repo run = some job) : JobKnows sortV repo job := by
  obtain ⟨-, hguard, rfl⟩ | ⟨name, hname, rfl⟩ := beginJob_cases h
  · exact ⟨rfl, hguard⟩
  · unfold existingStep at hname
    rw [keepLast_sortV_iff hsort] at hname
    have hmem := mem_pointsAt.mp hname.1
    exact ⟨hmem, ha.valid _ hmem hname.2.1⟩

-- ================================================================= the past

/-- The commit is the tip of main. -/
def IsTip (sha : Text) (s : Tagging) : Prop := s.repo.tip = sha

/-- The tag the event made. -/
def createdIn (e : TagAction × TagAnswer) : Option (TagRef Text) :=
  match e.2 with
  | .created tag => some tag
  | _ => none

/-- The tags the bot made, oldest first. -/
def createdTags (h : List (TagAction × TagAnswer)) : List (TagRef Text) :=
  h.filterMap createdIn

theorem createdTags_snoc (h : List (TagAction × TagAnswer))
    (e : TagAction × TagAnswer) :
    createdTags (h ++ [e]) = createdTags h ++ (createdIn e).toList := by
  unfold createdTags
  rw [List.filterMap_append]
  cases hc : createdIn e <;> simp [hc]

/-- What was seen of a commit before job `tag` came this far with it. -/
def JobSaw (seen tip : Text → Prop) : TagJob → Prop
  | .guarded run _ => seen run.sha
  | .onTip run _ | .versioned run _ _ => seen run.sha ∧ tip run.sha
  | _ => True

theorem JobSaw.mono {seen seen' tip tip' : Text → Prop} {job : TagJob}
    (hseen : ∀ sha, seen sha → seen' sha) (htip : ∀ sha, tip sha → tip' sha)
    (h : JobSaw seen tip job) : JobSaw seen' tip' job := by
  cases job with
  | guarded => exact hseen _ h
  | onTip | versioned => exact ⟨hseen _ h.1, htip _ h.2⟩
  | free | ready => trivial

/-- Job `tag` goes past step `guard` for a classification `tag` only. -/
theorem beginJob_saw {seen tip : Text → Prop} {run : Classified}
    {job : TagJob} (h : beginJob sortV repo run = some job)
    (hseen : run.outcome = .tag → seen run.sha) : JobSaw seen tip job := by
  obtain ⟨houtcome, -, rfl⟩ | ⟨name, -, rfl⟩ := beginJob_cases h
  · exact hseen houtcome
  · trivial

section Culture

variable [Culture]

-- ================================================================ the steps

/-- What a step can do. -/
inductive Move (git : Repository → Git) (sortV : List Text → List Text)
    (s : Tagging) : TagAction → TagAnswer → Tagging → Prop
  | pushed (c : Commit) (h : s.repo.Extends c) :
      Move git sortV s (.push c) .pushed { s with repo := s.repo.push c h }
  | classified (sha : Text) (entry : PrEntry) (c : Commit)
      (run : Classified) (hc : s.repo.find sha = some c)
      (hrun : classify (git s.repo) c entry = some run) :
      Move git sortV s (.classify sha entry) (.classified run)
        { s with classified := s.classified ++ [run] }
  | notForTag (sha : Text) (entry : PrEntry) :
      Move git sortV s (.classify sha entry) .notForTag s
  | began (k : Nat) (run : Classified) (job : TagJob)
      (hrun : s.classified[k]? = some run)
      (hjob : beginJob sortV s.repo run = some job) :
      Move git sortV s (.begin k) .began { s with job := job }
  | notBegun (k : Nat) : Move git sortV s (.begin k) .failed s
  | onTip (run : Classified) (clone : Repository)
      (hjob : s.job = .guarded run clone) (htip : s.repo.tip = run.sha) :
      Move git sortV s .checkTip (.onTip run.sha)
        { s with job := .onTip run clone }
  | abandoned : Move git sortV s .checkTip .abandoned { s with job := .free }
  | versioned (names : List Text) (run : Classified) (clone : Repository)
      (label name : Text) (hjob : s.job = .onTip run clone)
      (hname : nextTag (git clone) label = some name) :
      Move git sortV s (.version names) .versioned
        { s with job := .versioned run clone name }
  | unversioned (names : List Text) :
      Move git sortV s (.version names) .failed { s with job := .free }
  | created (run : Classified) (clone : Repository) (name : Text)
      (hjob : s.job = .versioned run clone name)
      (h : s.repo.Takes ⟨name, run.sha⟩) :
      Move git sortV s .create (.created ⟨name, run.sha⟩)
        { s with repo := s.repo.addTag ⟨name, run.sha⟩ h,
                 job := .ready ⟨name, run.sha⟩ }
  | refused : Move git sortV s .create .failed { s with job := .free }
  | released (tag : TagRef Text) (hjob : s.job = .ready tag) :
      Move git sortV s (.dispatch false) (.released tag)
        { s with job := .free }
  | alreadyReleased :
      Move git sortV s (.dispatch true) .alreadyReleased
        { s with job := .free }
  | stopped : Move git sortV s .stop .failed { s with job := .free }

theorem step_move {s s' : Tagging} {a : TagAction} {b : TagAnswer}
    (h : Tagging.step git sortV s a = some (b, s')) :
    Move git sortV s a b s' := by
  cases a with
  | push c =>
      simp only [Tagging.step] at h
      split at h
      next hc =>
        cases h
        exact .pushed c hc
      next => cases h
  | classify sha entry =>
      simp only [Tagging.step] at h
      split at h
      next => cases h
      next c hc =>
        split at h
        next =>
          cases h
          exact .notForTag sha entry
        next run hrun =>
          cases h
          exact .classified sha entry c run hc hrun
  | begin k =>
      simp only [Tagging.step] at h
      split at h
      next run _ hrun =>
        split at h
        next =>
          cases h
          exact .notBegun k
        next job hjob =>
          cases h
          exact .began k run job hrun hjob
      next => cases h
  | checkTip =>
      simp only [Tagging.step] at h
      split at h
      next run clone hjob =>
        split at h
        next htip =>
          cases h
          exact .onTip run clone hjob htip
        next =>
          cases h
          exact .abandoned
      next => cases h
  | version names =>
      simp only [Tagging.step] at h
      split at h
      next run clone hjob =>
        split at h
        next =>
          cases h
          exact .unversioned names
        next name hname =>
          cases h
          obtain ⟨label, -, hname⟩ := Option.bind_eq_some_iff.mp hname
          exact .versioned names run clone label name hjob hname
      next => cases h
  | create =>
      simp only [Tagging.step] at h
      split at h
      next run clone name hjob =>
        split at h
        next htakes =>
          cases h
          exact .created run clone name hjob htakes.2
        next =>
          cases h
          exact .refused
      next => cases h
  | dispatch published =>
      simp only [Tagging.step] at h
      split at h
      next tag hjob =>
        cases published <;> cases h
        · exact .released tag hjob
        · exact .alreadyReleased
      next => cases h
  | stop =>
      simp only [Tagging.step] at h
      split at h
      next => cases h
      next =>
        cases h
        exact .stopped

/-- Step `version` names the version after the last one it reads. -/
theorem nextTag_run {git : Git} {label name : Text}
    (h : nextTag git label = some name) :
    ∃ latest stderr next, getLastVersion git = .ok (latest, stderr)
      ∧ getNextVersion [] label latest = .ok next ∧ name = 'v' :: next := by
  unfold nextTag at h
  split at h
  next => cases h
  next printed hprinted =>
    dsimp only at h
    split at h
    next =>
      injection h with h
      unfold invokeNextVersionRun at hprinted
      split at hprinted
      next => cases hprinted
      next =>
        split at hprinted
        next => cases hprinted
        next =>
          split at hprinted
          next => cases hprinted
          next =>
            have hrun := invokeGuarded_ok hprinted
            split at hrun
            next => cases hrun
            next latest stderr hlast =>
              split at hrun
              next => cases hrun
              next next hnext =>
                injection hrun with hrun
                refine ⟨latest, stderr, next, hlast, hnext, ?_⟩
                rw [← h, ← hrun]
                simp [joinLines]
    next => cases h

/-- It is above all version tags of the clone, whatever else the trimming
of the listing makes of names. -/
theorem nextTag_above {git : Git} {clone : Repository}
    (hgit : git.Serves clone) {label name : Text}
    (h : nextTag git label = some name) :
    ∃ v, name = tagName v ∧ Above (tagList clone.tags) v := by
  obtain ⟨latest, stderr, next, hlast, hnext, rfl⟩ := nextTag_run h
  have hlatest := (getLastVersion_ok_iff hgit.tags).mp hlast
  obtain ⟨v, hname, habove⟩ :=
    getNextVersion_above (congrArg Prod.fst hlatest) hnext
  refine ⟨v, hname, habove.inRange, ?_⟩
  rintro w ⟨hrange, hw⟩
  exact habove.greater w ⟨hrange, (valid_tagName hrange).mem_namesRead hw⟩

theorem BotInv.move (hgit : ∀ repo, (git repo).Serves repo)
    (hsort : VersionSort sortV) {s s' : Tagging} {a : TagAction}
    {b : TagAnswer} (hi : BotInv sortV s) (hm : Move git sortV s a b s') :
    BotInv sortV s' := by
  have hjob := hi.job
  cases hm with
  | pushed c h => exact ⟨hi.along.push h, hjob.push h⟩
  | classified | notForTag | notBegun => exact ⟨hi.along, hjob⟩
  | abandoned | unversioned | refused | released | alreadyReleased
  | stopped => exact ⟨hi.along, trivial⟩
  | began k run job hrun hbegin =>
      exact ⟨hi.along, beginJob_knows hsort hi.along hbegin⟩
  | onTip run clone hat htip =>
      rw [hat] at hjob
      refine ⟨hi.along, hjob.1, ?_⟩
      have hguard := hjob.2
      rw [← htip] at hguard ⊢
      exact foremost_tip hsort hi.along hguard
  | versioned names run clone label name hat hname =>
      rw [hat] at hjob
      obtain ⟨hclone, hfore⟩ := hjob
      have habove := nextTag_above (hgit clone) hname
      rw [hclone] at habove
      exact ⟨hi.along, hfore, habove⟩
  | created run clone name hat h =>
      rw [hat] at hjob
      obtain ⟨hfore, v, rfl, habove⟩ := hjob
      exact ⟨hi.along.addTag h hfore habove, List.mem_cons_self,
        valid_tagName habove.inRange⟩

-- ======================================================== what was answered

/-- `release-commit` answers `tag` for the commit. -/
def AnswersTag (git : Repository → Git) (sha : Text) (s : Tagging) : Prop :=
  ∃ number entry,
    Prints "tag".toList (releaseCommit (git s.repo) (fetched number entry) sha)

/-- A classification `tag` is the answer of `release-commit`. -/
theorem classify_tag {git : Git} {c : Commit} {entry : PrEntry}
    {run : Classified} (h : classify git c entry = some run)
    (htag : run.outcome = .tag) :
    run.sha = c.sha ∧ Prints "tag".toList
      (releaseCommit git (fetched (subjectNumber c.subject) entry) c.sha) := by
  unfold classify at h
  dsimp only at h
  split at h
  next => cases h
  next printed hprinted =>
    obtain ⟨outcome, houtcome, rfl⟩ := Option.map_eq_some_iff.mp h
    refine ⟨rfl, printed.stderr, ?_⟩
    rw [hprinted]
    unfold readOutcome at houtcome
    split at houtcome
    next hout => rw [← hout]
    next =>
      split at houtcome
      next =>
        obtain rfl := Option.some.inj houtcome
        cases htag
      next => cases houtcome

-- ============================================================== the history

/-- The state a step was taken in, among those the run has left. -/
abbrev Seen (git : Repository → Git) (sortV : List Text → List Text)
    (s₀ : Tagging) (h : List (TagAction × TagAnswer))
    (P : Text → Tagging → Prop) (sha : Text) : Prop :=
  (tagging git sortV).Past s₀ h (P sha)

/-- What the history says of the tags and of the job. -/
structure BotHistory (git : Repository → Git)
    (sortV : List Text → List Text) (s₀ : Tagging)
    (h : List (TagAction × TagAnswer)) (s : Tagging) : Prop where
  tags : s.repo.tags = (createdTags h).reverse ++ s₀.repo.tags
  valid : ∀ tag ∈ createdTags h, Valid tag.name
  upward : (createdTags h).Pairwise fun t t' =>
    shapedVersion t.name < shapedVersion t'.name
  above : ∀ tag ∈ createdTags h, ∀ old ∈ s₀.repo.tags, Valid old.name →
    shapedVersion old.name < shapedVersion tag.name
  classified : ∀ run ∈ s.classified, run.outcome = .tag →
    Seen git sortV s₀ h (AnswersTag git) run.sha
  job : JobSaw (Seen git sortV s₀ h (AnswersTag git))
    (Seen git sortV s₀ h IsTip) s.job
  created : ∀ tag ∈ createdTags h,
    Seen git sortV s₀ h (AnswersTag git) tag.commit
      ∧ Seen git sortV s₀ h IsTip tag.commit
  released : ∀ e ∈ h, ∀ tag, e.2 = .released tag →
    tag ∈ s.repo.tags ∧ Valid tag.name

section snoc

variable {s₀ s s' : Tagging} {h : List (TagAction × TagAnswer)}

/-- A step that makes no tag. -/
theorem BotHistory.frame {e : TagAction × TagAnswer}
    (hb : BotHistory git sortV s₀ h s) (hcreated : createdIn e = none)
    (htags : s'.repo.tags = s.repo.tags)
    (hclassified : ∀ run ∈ s'.classified, run.outcome = .tag →
      Seen git sortV s₀ (h ++ [e]) (AnswersTag git) run.sha)
    (hjob : JobSaw (Seen git sortV s₀ (h ++ [e]) (AnswersTag git))
      (Seen git sortV s₀ (h ++ [e]) IsTip) s'.job)
    (hreleased : ∀ tag, e.2 = .released tag →
      tag ∈ s.repo.tags ∧ Valid tag.name) :
    BotHistory git sortV s₀ (h ++ [e]) s' := by
  have hsame : createdTags (h ++ [e]) = createdTags h := by
    rw [createdTags_snoc, hcreated, Option.toList_none, List.append_nil]
  exact {
    tags := by rw [hsame, htags, hb.tags]
    valid := by
      rw [hsame]
      exact hb.valid
    upward := by
      rw [hsame]
      exact hb.upward
    above := by
      rw [hsame]
      exact hb.above
    classified := hclassified
    job := hjob
    created := by
      rw [hsame]
      exact fun tag htag =>
        ⟨(hb.created tag htag).1.snoc e, (hb.created tag htag).2.snoc e⟩
    released := by
      rw [htags]
      intro e' he' tag htag
      rcases List.mem_append.mp he' with hold | hnew
      · exact hb.released e' hold tag htag
      · exact hreleased tag (List.mem_singleton.mp hnew ▸ htag) }

theorem BotHistory.seen (hb : BotHistory git sortV s₀ h s)
    (e : TagAction × TagAnswer) :
    (∀ run ∈ s.classified, run.outcome = .tag →
      Seen git sortV s₀ (h ++ [e]) (AnswersTag git) run.sha)
      ∧ JobSaw (Seen git sortV s₀ (h ++ [e]) (AnswersTag git))
        (Seen git sortV s₀ (h ++ [e]) IsTip) s.job :=
  ⟨fun run hrun htag => (hb.classified run hrun htag).snoc e,
    hb.job.mono (fun _ hs => hs.snoc e) fun _ ht => ht.snoc e⟩

theorem BotHistory.move (hi : BotInv sortV s)
    (hb : BotHistory git sortV s₀ h s)
    (hrun : (tagging git sortV).Run s₀ h s) {a : TagAction}
    {b : TagAnswer} (hm : Move git sortV s a b s') :
    BotHistory git sortV s₀ (h ++ [(a, b)]) s' := by
  obtain ⟨hclassified, hjob⟩ := hb.seen (a, b)
  have hknows := hi.job
  cases hm with
  | pushed | notForTag | notBegun =>
      exact hb.frame rfl rfl hclassified hjob (by intro _ heq; cases heq)
  | abandoned | unversioned | refused | alreadyReleased | stopped =>
      exact hb.frame rfl rfl hclassified trivial (by intro _ heq; cases heq)
  | classified sha entry c run hc hclassify =>
      refine hb.frame rfl rfl ?_ hjob (by intro _ heq; cases heq)
      intro run' hrun' htag
      rcases List.mem_append.mp hrun' with hold | hnew
      · exact hclassified run' hold htag
      · obtain rfl := List.mem_singleton.mp hnew
        obtain ⟨hsha, hprints⟩ := classify_tag hclassify htag
        refine .now hrun ?_ _
        rw [hsha]
        exact ⟨_, entry, hprints⟩
  | began k run job hk hbegin =>
      refine hb.frame rfl rfl hclassified ?_ (by intro _ heq; cases heq)
      exact beginJob_saw hbegin
        (hclassified run (List.mem_of_getElem? hk))
  | onTip run clone hat htip =>
      refine hb.frame rfl rfl hclassified ?_ (by intro _ heq; cases heq)
      rw [hat] at hjob
      exact ⟨hjob, .now hrun htip _⟩
  | versioned names run clone label name hat hname =>
      refine hb.frame rfl rfl hclassified ?_ (by intro _ heq; cases heq)
      rw [hat] at hjob
      exact hjob
  | released tag hat =>
      refine hb.frame rfl rfl hclassified trivial ?_
      intro tag' heq
      cases heq
      rw [hat] at hknows
      exact hknows
  | created run clone name hat htakes =>
      rw [hat] at hjob hknows
      obtain ⟨-, v, rfl, habove⟩ := hknows
      have hnew : shapedVersion (tagName v) = v :=
        shapedVersion_tagName habove.inRange
      have hgreater : ∀ t ∈ s.repo.tags, Valid t.name →
          shapedVersion t.name < v :=
        fun t ht => habove.shaped (List.mem_map_of_mem ht)
      have hmem : ∀ t ∈ createdTags h, t ∈ s.repo.tags := by
        intro t ht
        rw [hb.tags]
        exact List.mem_append_left _ (List.mem_reverse.mpr ht)
      have hold : ∀ t ∈ s₀.repo.tags, t ∈ s.repo.tags := by
        intro t ht
        rw [hb.tags]
        exact List.mem_append_right _ ht
      have hsnoc : createdTags (h ++ [(.create,
          .created ⟨tagName v, run.sha⟩)])
          = createdTags h ++ [⟨tagName v, run.sha⟩] := createdTags_snoc _ _
      exact {
        tags := by
          rw [hsnoc, List.reverse_append]
          show _ :: s.repo.tags = _
          rw [hb.tags]
          rfl
        valid := by
          rw [hsnoc, List.forall_mem_append, List.forall_mem_singleton]
          exact ⟨hb.valid, valid_tagName habove.inRange⟩
        upward := by
          rw [hsnoc, List.pairwise_append]
          refine ⟨hb.upward, List.pairwise_singleton _ _, ?_⟩
          intro t ht t' ht'
          rw [List.mem_singleton.mp ht', hnew]
          exact hgreater t (hmem t ht) (hb.valid t ht)
        above := by
          rw [hsnoc, List.forall_mem_append, List.forall_mem_singleton]
          refine ⟨hb.above, fun old ho hv => ?_⟩
          rw [hnew]
          exact hgreater old (hold old ho) hv
        classified := hclassified
        job := trivial
        created := by
          rw [hsnoc, List.forall_mem_append, List.forall_mem_singleton]
          exact ⟨fun t ht => ⟨(hb.created t ht).1.snoc _,
            (hb.created t ht).2.snoc _⟩, hjob⟩
        released := by
          intro e' he' tag htag
          rcases List.mem_append.mp he' with hbefore | hnow
          · obtain ⟨hin, hv⟩ := hb.released e' hbefore tag htag
            exact ⟨List.mem_cons_of_mem _ hin, hv⟩
          · rw [List.mem_singleton.mp hnow] at htag
            cases htag }

end snoc

-- ============================================================== the result

theorem bot_invariant (hgit : ∀ repo, (git repo).Serves repo)
    (hsort : VersionSort sortV) {s₀ s : Tagging}
    {h : List (TagAction × TagAnswer)}
    (hstart : (tagging git sortV).start s₀) (halong : AlongMain s₀.repo)
    (hrun : (tagging git sortV).Run s₀ h s) :
    BotInv sortV s ∧ BotHistory git sortV s₀ h s := by
  obtain ⟨hnone, hfree⟩ := hstart
  induction hrun with
  | nil =>
      refine ⟨⟨halong, ?_⟩, ?_⟩
      · rw [hfree]
        trivial
      · exact {
          tags := rfl
          valid := List.forall_mem_nil _
          upward := .nil
          above := List.forall_mem_nil _
          classified := by
            rw [hnone]
            exact List.forall_mem_nil _
          job := by
            rw [hfree]
            trivial
          created := List.forall_mem_nil _
          released := List.forall_mem_nil _ }
  | snoc hrun hst ih =>
      have hm := step_move hst
      exact ⟨ih.1.move hgit hsort hm, ih.2.move ih.1 hrun hm⟩

/-- Versions go up along main. In every run of the tagging bot, from a
repository whose version tags are valid and go up along main, they still
do at its end. The tags are those of the start and the bot's, each of
these higher than all before it and on a later commit; every one is on a
commit that was the tip of main and for which `release-commit` answered
`tag`; and a release is started only on a version tag there is. -/
theorem versions_along_main (hgit : ∀ repo, (git repo).Serves repo)
    (hsort : VersionSort sortV) {s₀ s : Tagging}
    {h : List (TagAction × TagAnswer)}
    (hstart : (tagging git sortV).start s₀) (halong : AlongMain s₀.repo)
    (hrun : (tagging git sortV).Run s₀ h s) :
    AlongMain s.repo
      ∧ s.repo.tags = (createdTags h).reverse ++ s₀.repo.tags
      ∧ (createdTags h).Pairwise (fun t t' =>
        shapedVersion t.name < shapedVersion t'.name
          ∧ s.repo.Ahead t'.commit t.commit)
      ∧ (∀ tag ∈ createdTags h, ∀ old ∈ s₀.repo.tags, Valid old.name →
        shapedVersion old.name < shapedVersion tag.name
          ∧ s.repo.Ahead tag.commit old.commit)
      ∧ (∀ tag ∈ createdTags h,
        (tagging git sortV).Past s₀ h (AnswersTag git tag.commit)
          ∧ (tagging git sortV).Past s₀ h (IsTip tag.commit))
      ∧ ∀ e ∈ h, ∀ tag, e.2 = .released tag →
        tag ∈ s.repo.tags ∧ Valid tag.name := by
  obtain ⟨⟨hs, -⟩, hb⟩ := bot_invariant hgit hsort hstart halong hrun
  have hmem : ∀ t ∈ createdTags h, t ∈ s.repo.tags := by
    intro t ht
    rw [hb.tags]
    exact List.mem_append_left _ (List.mem_reverse.mpr ht)
  refine ⟨hs, hb.tags, ?_, ?_, hb.created, hb.released⟩
  · apply hb.upward.imp_of_mem
    intro t t' ht ht' hlt
    exact ⟨hlt, hs.ordered t (hmem t ht) t' (hmem t' ht') (hb.valid t ht)
      (hb.valid t' ht') hlt⟩
  · intro tag htag old hold hv
    have hlt := hb.above tag htag old hold hv
    refine ⟨hlt, hs.ordered old ?_ tag (hmem tag htag) hv
      (hb.valid tag htag) hlt⟩
    rw [hb.tags]
    exact List.mem_append_right _ hold

end Culture

open SoftHyphen

/-- The bot on the cut over `v1.0.0`, before its first step. -/
def beforeTag : Tagging := ⟨cut, [], .free⟩

/-- The cut is classified and tagged while main moves on, and its run is
started again. -/
def tagTwice : List TagAction :=
  [.classify (shaOf 'c') ((merged "7".toList).getD none), .begin 0, .checkTip,
    .push ⟨shaOf '1', [shaOf 'c'], shaOf '2', "fix/clock (#8)".toList⟩,
    .version ["bump:minor".toList, "ci".toList], .create, .dispatch false,
    .begin 0, .dispatch true]

theorem tagTwice_runs :
    ((tagging Repository.git sortByVersion).exec beforeTag tagTwice).isSome
      = true := by
  decide

theorem alongMain_cut : AlongMain cut where
  valid t ht _ := by
    obtain rfl := List.mem_singleton.mp ht
    exact ⟨version 1 0 0, by decide⟩
  onMain t ht _ := by
    obtain rfl := List.mem_singleton.mp ht
    decide
  ordered t ht t' ht' _ _ hlt := by
    rw [List.mem_singleton.mp ht, List.mem_singleton.mp ht'] at hlt
    exact absurd hlt (lt_irrefl _)

def twiceTagged : List (TagAction × TagAnswer) × Tagging :=
  ((tagging Repository.git sortByVersion).exec beforeTag tagTwice).get
    tagTwice_runs

theorem versions_along_main_tagTwice :
    tagList twiceTagged.2.repo.tags
        = ["v1.1.0".toList, "v1.0.0".toList]
      ∧ twiceTagged.2.repo.Ahead (shaOf 'c') (shaOf 'a') := by
  have hrun : (tagging Repository.git sortByVersion).Run beforeTag
      twiceTagged.1 twiceTagged.2 :=
    .of_exec (Option.some_get tagTwice_runs).symm
  have htags := versions_along_main (fun repo => repo.git_serves)
    versionSort_sortByVersion ⟨rfl, rfl⟩ alongMain_cut hrun
  have hcreated : (createdTags twiceTagged.1).map
      (fun tag => (tag.name, tag.commit))
      = [("v1.1.0".toList, shaOf 'c')] := by
    decide
  obtain ⟨tag, htag, heq⟩ := List.mem_map.mp
    (hcreated ▸ List.mem_singleton_self _)
  obtain ⟨-, hcommit⟩ := Prod.mk.inj heq
  have hahead := (htags.2.2.2.1 tag htag first (List.mem_singleton_self _)
    ⟨version 1 0 0, by decide⟩).2
  rw [hcommit] at hahead
  exact ⟨by decide, hahead⟩

end RestifyCapl.Ci
