/-
Job `validate` of .github/workflows/release.yml in the mode `tag`: step
`tag`, which looks at the name of the tag, at its commit and at the
releases there are, and after it `notes` on the CHANGELOG.md of the
commit. The fixtures of the script, which run in between, are left out.

An error is the text after `::error::`. `$(...)` drops the line feeds at
the end of what a command prints.
-/
import RestifyCapl.Ci.Notes
import RestifyCapl.Ci.PrData

namespace RestifyCapl.Ci

-- ================================================================ the tag

/-- `^v(0|[1-9][0-9]*)\.(0|[1-9][0-9]*)\.(0|[1-9][0-9]*)$`, and its
groups. -/
def reReleaseTag (name : Text) : Option (List Text) :=
  match tagShape name with
  | none => none
  | some (major, minor, patch) =>
      if [major, minor, patch].any hasLeadingZero then none
      else some [major, minor, patch]

def mergeBase (sha : Text) : List Text :=
  ["merge-base".toList, "--is-ancestor".toList, sha, "origin/main".toList]

def revListParents (sha : Text) : List Text :=
  ["rev-list".toList, "--parents".toList, "-n".toList, "1".toList, sha]

/-- `read -r -a`, of a line. -/
def readWords (line : Text) : List Text :=
  (line.splitOnP fun c => c == ' ' || c == '\t').filter fun word =>
    !word.isEmpty

/-- `ids`: the commit and its parents. -/
def readIds (git : Git) (sha : Text) : List Text :=
  readWords ((lines (git (revListParents sha)).out).headD [])

/-- The end of step `tag`: a release that is published has its tag. What
`gh` says goes with its error. -/
def checkUnpublished (name : Text) : GhAnswer → Except Text Unit
  | .ok _ => .error ("a published release for ".toList ++ name
      ++ " already exists; never move a published tag".toList)
  | .failed _ err =>
      let err := err.rdropWhile (· == '\n')
      if contains "HTTP 404".toList err then .ok ()
      else .error ("could not check for an existing release: ".toList ++ err)

/-- Step `tag`: the tag, and its version. -/
def validateTag (git : Git) (tag : TagRef Text) (lookup : GhAnswer) :
    Except Text (Text × Text) :=
  match reReleaseTag tag.name with
  | none => .error ("tag '".toList ++ tag.name
      ++ "' is not of the form vX.Y.Z without leading zeros".toList)
  | some fields =>
      if fields.any aboveMaxField then
        .error ("tag '".toList ++ tag.name ++ ("' has a field above 65535 "
          ++ "(version resource fields are 16-bit)").toList)
      else if (git (mergeBase tag.commit)).code ≠ 0 then
        .error "the tagged commit is not an ancestor of origin/main".toList
      else if (readIds git tag.commit).length < 2 then
        .error ("the tagged commit has no parent; tag the squash-merge "
          ++ "commit of the CHANGELOG cut").toList
      else
        match checkUnpublished tag.name lookup with
        | .error e => .error e
        | .ok () => .ok (tag.name, tag.name.drop 1)

-- ================================================================ the job

structure Validated where
  tag : Text
  version : Text
  notes : Noted

/-- Job `validate`, on the text of the commit's CHANGELOG.md. -/
def validate (git : Git) (tag : TagRef Text) (lookup : GhAnswer)
    (changelog : Text) : Except Text Validated :=
  match validateTag git tag lookup with
  | .error e => .error e
  | .ok (name, version) =>
      match invokeNotesRun git true .tag tag.commit changelog with
      | .error e => .error e
      | .ok notes => .ok ⟨name, version, notes⟩

-- =================================================================== git

/-- What git prints of a repository to the job. -/
structure Git.Validates (git : Git) (repo : Repository) : Prop where
  ancestor : ∀ c ∈ repo.commits,
    ((git (mergeBase c.sha)).code = 0 ↔ repo.IsAncestor c.sha repo.tip)
  parents : ∀ c ∈ repo.commits, git (revListParents c.sha)
    = success (printLines [[' '].intercalate (c.sha :: c.parents)])
  parent : ∀ c ∈ repo.commits, ∀ p ∈ c.parents.head?,
    git (revParseParent c.sha) = success (printLines [p])

namespace Repository

/-- A git on the clone of the job. -/
def gitOfJob (repo : Repository) : Git
  | [_, _, sha, _] =>
      if sha ∈ reachable repo.commits [repo.tip] then success []
      else ⟨1, [], []⟩
  | [_, _, _, _, sha] =>
      match repo.find sha with
      | none => unknownRevision
      | some c => success (printLines [[' '].intercalate (c.sha :: c.parents)])
  | [_, parent] =>
      match (repo.find parent.dropLast).bind fun c => c.parents.head? with
      | none => unknownRevision
      | some p => success (printLines [p])
  | _ => unknownRevision

theorem gitOfJob_validates (repo : Repository) :
    repo.gitOfJob.Validates repo where
  ancestor c _ := by
    show (if c.sha ∈ reachable repo.commits [repo.tip] then success []
      else ⟨1, [], []⟩ : GitResult).code = 0 ↔ _
    by_cases h : c.sha ∈ reachable repo.commits [repo.tip]
    · rw [if_pos h]
      exact iff_of_true rfl h
    · rw [if_neg h]
      exact iff_of_false Nat.one_ne_zero h
  parents c hc := by
    simp only [gitOfJob, revListParents]
    rw [find_sha hc]
  parent c hc p hp := by
    have hdrop : (c.sha ++ "^".toList).dropLast = c.sha := by simp
    simp only [gitOfJob, revParseParent]
    rw [hdrop, find_sha hc, Option.bind_some, hp]

end Repository

end RestifyCapl.Ci
