/-
The tagging bot at work (.github/workflows/tag-release.yml): commits that
reach main, and the runs of the workflow, whose jobs take their steps one
by one in between.

Job `tag` is in the concurrency group `tag-release`, which no later run
cancels, so from its checkout to its end it is the only one; which of the
runs that wait for it comes next is left open. A run can be started again
with what its job `classify` put out, so job `tag` may start at any time
and any number of times for a classification. A job may stop after any
step. What GitHub answers, the entry of a pull request, its labels and
whether a release is published, comes with the action.

main moves forward only, by a commit on top of its tip, and only the bot
makes tags.
-/
import RestifyCapl.Ci.Level
import RestifyCapl.Lib.Machine

namespace RestifyCapl.Ci

open Lib

-- ============================================================== the remote

namespace Repository

/-- A commit that can be put on top of main. -/
def Extends (repo : Repository) (c : Commit) : Prop :=
  IsSha c.sha ∧ c.sha ∉ repo.commits.map Commit.sha
    ∧ c.parents.head? = some repo.tip
    ∧ (∀ p ∈ c.parents, p ∈ repo.commits.map Commit.sha) ∧ '\n' ∉ c.subject

instance (repo : Repository) (c : Commit) : Decidable (repo.Extends c) :=
  inferInstanceAs (Decidable (_ ∧ _))

/-- A commit reaches main. -/
def push (repo : Repository) (c : Commit) (h : repo.Extends c) :
    Repository where
  commits := c :: repo.commits
  tip := c.sha
  tags := repo.tags
  distinct := List.nodup_cons.mpr ⟨h.2.1, repo.distinct⟩
  shas := List.forall_mem_cons.mpr ⟨h.1, repo.shas⟩
  parentsLater := ⟨h.2.2.2.1, repo.parentsLater⟩
  oneLine := List.forall_mem_cons.mpr ⟨h.2.2.2.2, repo.oneLine⟩
  tipHeld := List.mem_cons_self
  tagsDistinct := repo.tagsDistinct
  tagsHeld t ht := List.mem_cons_of_mem _ (repo.tagsHeld t ht)
  tagWords := repo.tagWords

/-- A tag the remote takes: it has none of that name. The rest holds of
every tag the bot makes. -/
def Takes (repo : Repository) (tag : TagRef Text) : Prop :=
  tag.name ∉ tagList repo.tags
    ∧ tag.commit ∈ repo.commits.map Commit.sha ∧ IsWord tag.name

instance (repo : Repository) (tag : TagRef Text) :
    Decidable (repo.Takes tag) :=
  inferInstanceAs (Decidable (_ ∧ _))

/-- `git push origin refs/tags/<name>`. -/
def addTag (repo : Repository) (tag : TagRef Text) (h : repo.Takes tag) :
    Repository :=
  { repo with
    tags := tag :: repo.tags
    tagsDistinct := List.nodup_cons.mpr ⟨h.1, repo.tagsDistinct⟩
    tagsHeld := List.forall_mem_cons.mpr ⟨h.2.1, repo.tagsHeld⟩
    tagWords := List.forall_mem_cons.mpr ⟨h.2.2, repo.tagWords⟩ }

end Repository

-- ============================================================ job classify

variable [Culture]

/-- What job `classify` puts out. -/
structure Classified where
  sha : Text
  outcome : Outcome
  number : Text

/-- `^release/next\ \(#([0-9]+)\)$`, and its group. -/
def subjectNumber (subject : Text) : Option Text :=
  let opening := "release/next (#".toList
  if opening <+: subject ∧ subject.getLast? = some ')' then
    let number := (subject.drop opening.length).dropLast
    if isNumber number then some number else none
  else none

/-- The pull-request data of the pushed commit: an entry for the number in
its subject. -/
def fetched (number : Option Text) (entry : PrEntry) : PrReleases :=
  fun n => if number = some n then some entry else none

/-- `case "$out"` of step `classify`: the answers job `tag` runs for. -/
def readOutcome (stdout : List Text) : Option Outcome :=
  if stdout = ["tag".toList] then some .tag
  else if stdout = ["tagged".toList] then some .tagged
  else none

/-- Job `classify`, on the repository as it is checked out. -/
def classify (git : Git) (c : Commit) (entry : PrEntry) :
    Option Classified :=
  let number := subjectNumber c.subject
  match releaseCommit git (fetched number entry) c.sha with
  | .error _ => none
  | .ok printed =>
      (readOutcome printed.stdout).map fun outcome =>
        ⟨c.sha, outcome, number.getD []⟩

-- ================================================================= job tag

/-- Where job `tag` is: not running, after step `guard`, after step `tip`,
after step `version`, or about to dispatch. `clone` is its checkout. -/
inductive TagJob where
  | free
  | guarded (run : Classified) (clone : Repository)
  | onTip (run : Classified) (clone : Repository)
  | versioned (run : Classified) (clone : Repository) (name : Text)
  | ready (tag : TagRef Text)

/-- Steps `guard` and, for a commit that is tagged, `existing`. -/
def beginJob (sortV : List Text → List Text) (repo : Repository)
    (run : Classified) : Option TagJob :=
  let outcome := match run.outcome with
    | .tag => guardStep sortV repo.tags run.sha
    | .tagged => .tagged
  match outcome with
  | .tag => some (.guarded run repo)
  | .tagged =>
      (existingStep sortV repo.tags run.sha).map fun name =>
        .ready ⟨name, run.sha⟩

/-- Step `label`: the one `bump:*` label. -/
def bumpLabel (number : Text) (names : List Text) : Option Text :=
  if isNumber number then
    match names.filter fun name => "bump:".toList.isPrefixOf name with
    | [label] => if label ∈ labels then some label else none
    | _ => none
  else none

/-- Step `version`. -/
def nextTag (git : Git) (label : Text) : Option Text :=
  match invokeNextVersionRun git [] label with
  | .error _ => none
  | .ok printed =>
      let name := 'v' :: joinLines printed.stdout
      if isVersionTag name then some name else none

-- ============================================================== the system

structure Tagging where
  repo : Repository
  classified : List Classified
  job : TagJob

inductive TagAction where
  | push (c : Commit)
  | classify (sha : Text) (entry : PrEntry)
  | begin (run : Nat)
  | checkTip
  | version (names : List Text)
  | create
  | dispatch (published : Bool)
  | stop

/-- What a step came to. -/
inductive TagAnswer where
  | pushed
  | classified (run : Classified)
  | notForTag
  | began
  | onTip (sha : Text)
  | abandoned
  | versioned
  | created (tag : TagRef Text)
  | released (tag : TagRef Text)
  | alreadyReleased
  | failed

/-- One step. `stop` is a job that fails or is cancelled where it is. -/
def Tagging.step (git : Repository → Git) (sortV : List Text → List Text)
    (s : Tagging) : TagAction → Option (TagAnswer × Tagging)
  | .push c =>
      if h : s.repo.Extends c then
        some (.pushed, { s with repo := s.repo.push c h })
      else none
  | .classify sha entry =>
      match s.repo.find sha with
      | none => none
      | some c =>
          match classify (git s.repo) c entry with
          | none => some (.notForTag, s)
          | some run =>
              some (.classified run,
                { s with classified := s.classified ++ [run] })
  | .begin k =>
      match s.job, s.classified[k]? with
      | .free, some run =>
          match beginJob sortV s.repo run with
          | none => some (.failed, s)
          | some job => some (.began, { s with job := job })
      | _, _ => none
  | .checkTip =>
      match s.job with
      | .guarded run clone =>
          if s.repo.tip = run.sha then
            some (.onTip run.sha, { s with job := .onTip run clone })
          else some (.abandoned, { s with job := .free })
      | _ => none
  | .version names =>
      match s.job with
      | .onTip run clone =>
          match (bumpLabel run.number names).bind (nextTag (git clone)) with
          | none => some (.failed, { s with job := .free })
          | some name =>
              some (.versioned, { s with job := .versioned run clone name })
      | _ => none
  | .create =>
      match s.job with
      | .versioned run clone name =>
          -- a tag of the clone stops `git tag`, one of the remote the push
          if h : name ∉ tagList clone.tags ∧ s.repo.Takes ⟨name, run.sha⟩ then
            some (.created ⟨name, run.sha⟩,
              { s with repo := s.repo.addTag ⟨name, run.sha⟩ h.2,
                       job := .ready ⟨name, run.sha⟩ })
          else some (.failed, { s with job := .free })
      | _ => none
  | .dispatch published =>
      match s.job with
      | .ready tag =>
          some (if published then .alreadyReleased else .released tag,
            { s with job := .free })
      | _ => none
  | .stop =>
      match s.job with
      | .free => none
      | _ => some (.failed, { s with job := .free })

/-- The bot on a repository. -/
def tagging (git : Repository → Git) (sortV : List Text → List Text) :
    Machine Tagging TagAction TagAnswer where
  start s := s.classified = [] ∧ s.job = .free
  step := Tagging.step git sortV

end RestifyCapl.Ci
