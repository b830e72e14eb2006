/-
The release commands of scripts/ci/changelog.ps1: what it takes for the
last tag and the range since, and the runs `pending-cut`, which the
release bot asks before it cuts a release, and `release-commit`, which
the tagging bot asks about the commit it was started for.

A run prints lines or stops with an error (`Stop-WithError`); the error
is the text after `::error::`. The pull-request data of `-PrReleases` is
taken as read: a map from numbers to entries.
-/
import RestifyCapl.Ci.Repository

namespace RestifyCapl.Ci

variable [Culture]

/-- What a run printed. -/
structure Printed where
  stdout : List Text
  stderr : List Text

/-- `$` of a regular expression: the end, or before a final line feed. -/
def atEnd {α : Type} (pattern : Text → Option α) (t : Text) : Option α :=
  match pattern t with
  | some found => some found
  | none => if t.getLast? = some '\n' then pattern t.dropLast else none

/-- `$ReBase`. -/
def reBase (t : Text) : Bool :=
  (atEnd (fun t => if IsSha t then some () else none) t).isSome

/-- `[1-9][0-9]{0,8}`. -/
def isPrNumber (t : Text) : Bool :=
  isNumber t && decide (t.length ≤ 9) && t.head? != some '0'

/-- `$ReReleaseSubject`, and its group. -/
def releaseSubject (subject : Text) : Option Text :=
  atEnd (fun t =>
    let opening := "release/next (#".toList
    if opening <+: t ∧ t.getLast? = some ')' then
      let number := (t.drop opening.length).dropLast
      if isPrNumber number then some number else none
    else none) subject

-- ===================================================================== git

/-- `Get-GitOutput`. -/
def getGitOutput (git : Git) (args : List Text) : Except Text Text :=
  let r := git args
  if r.code ≠ 0 then
    .error ("git ".toList ++ [' '].intercalate args ++ " failed: ".toList
      ++ trim r.err)
  else .ok (trim r.out)

/-- `Get-LastVersion`: the version, and the warnings on the way. -/
def getLastVersion (git : Git) : Except Text (Version × List Text) :=
  match getGitOutput git listTags with
  | .error e => .error e
  | .ok out =>
      match getLatestVersion (splitWords out) with
      | (none, _) => .error ("no tag of the form vX.Y.Z found; fetch the tags"
          ++ " (a shallow checkout has none) or tag the first release by hand"
          ).toList
      | (some latest, stderr) => .ok (latest, stderr)

/-- `Resolve-Base`. -/
def resolveBase (git : Git) (base : Text) : Except Text Text :=
  if base ≠ [] then .ok base
  else
    match getGitOutput git revParseTip with
    | .error e => .error e
    | .ok base =>
        if reBase base then .ok base
        else .error (("git rev-parse origin/main did not print a full commit "
          ++ "hash: ").toList ++ base)

-- =============================================================== the range

structure LogEntry where
  sha : Text
  subject : Text
deriving DecidableEq

structure RangeLog where
  latest : Version
  tag : Text
  entries : List LogEntry
  stderr : List Text

/-- A row of the log. -/
def readRow (raw : Text) : Except Text LogEntry :=
  let row := trimEndCr raw
  let tab := row.idxOf '\t'
  if tab < 1 ∨ tab ≥ row.length then
    .error ("unexpected line in the git log output: ".toList ++ row)
  else .ok ⟨row.take tab, row.drop (tab + 1)⟩

/-- `Get-RangeLog`. -/
def getRangeLog (git : Git) (base : Text) : Except Text RangeLog :=
  match getLastVersion git with
  | .error e => .error e
  | .ok (latest, stderr) =>
      let tag := tagName latest
      match getGitOutput git (logRange tag base) with
      | .error e => .error e
      | .ok log =>
          let rows := if isEmptyText log then [] else lines log
          match rows.mapM readRow with
          | .error e => .error e
          | .ok entries => .ok ⟨latest, tag, entries, stderr⟩

structure Candidate where
  sha : Text
  number : Text
deriving DecidableEq

/-- The release commits of a log. -/
def candidatesOf (entries : List LogEntry) : List Candidate :=
  entries.filterMap fun e =>
    (releaseSubject e.subject).map fun number => ⟨e.sha, number⟩

/-- `Get-ReleaseCandidates`. -/
def getReleaseCandidates (git : Git) (base : Text) :
    Except Text (List Candidate × List Text) :=
  match getRangeLog git base with
  | .error e => .error e
  | .ok log => .ok (candidatesOf log.entries, log.stderr)

-- ======================================================= the pull requests

/-- An entry of `-PrReleases` with `found` true. -/
structure PrData where
  merged : Bool
  mergeCommitSha : Option Text
  baseRef : Text
  baseRepo : Text
  headRef : Text
  headRepo : Option Text
  headParents : Option (List Text)
  headTree : Option Text

/-- An entry: `none` is `{"found": false}`. -/
abbrev PrEntry := Option PrData

abbrev PrReleases := Text → Option PrEntry

inductive FaultKind where
  | inconsistent
  | foreign
deriving DecidableEq

structure Fault where
  kind : FaultKind
  reason : Text

/-- `Get-ReleaseCommitFault`: the first check that fails. -/
def getReleaseCommitFault (entry : PrEntry) (sha : Text) : Option Fault :=
  match entry with
  | none => some ⟨.inconsistent, "the pull request was not found".toList⟩
  | some pr =>
      if !pr.merged then
        some ⟨.inconsistent, "the pull request is not merged".toList⟩
      else if !pr.mergeCommitSha.any (ceq · sha) then
        some ⟨.inconsistent,
          "the pull request was merged as another commit".toList⟩
      else if !ceq pr.baseRef "main".toList then
        some ⟨.inconsistent, "the base of the pull request is not main".toList⟩
      else if !ceq pr.headRef "release/next".toList then
        some ⟨.foreign,
          "the head of the pull request is not release/next".toList⟩
      else if !pr.headRepo.any (ceq · pr.baseRepo) then
        some ⟨.foreign, ("the head repository of the pull request is not this "
          ++ "repository").toList⟩
      else none

/-- `Test-ValidReleaseCommit`. -/
def testValidReleaseCommit (entry : PrEntry) (sha : Text) : Bool :=
  (getReleaseCommitFault entry sha).isNone

/-- The head has one parent, this one. -/
def sameParent (headParents : List Text) (parent : Text) : Bool :=
  match headParents with
  | [headParent] => ceq headParent parent
  | _ => false

/-- `Test-FaithfulReleaseCommit`: its parent and tree are those of the head
of the pull request. -/
def testFaithfulReleaseCommit (git : Git) (entry : PrEntry) (sha : Text) :
    Except Text Bool :=
  match getGitOutput git (logInfo sha) with
  | .error e => .error e
  | .ok out =>
      match out.splitOn '\t' with
      | [first, second] =>
          match splitWords first, entry.bind PrData.headParents,
              entry.bind PrData.headTree with
          | [parent], some headParents, some headTree =>
              .ok (sameParent headParents parent
                && ceq headTree (trim second))
          | _, _, _ => .ok false
      | _ => .ok false

-- ================================================================ the runs

/-- The loop of `Invoke-PendingCutRun`: the newest valid release commit
decides. -/
def pendingCutLoop (git : Git) (releases : PrReleases) (tip : Text)
    (stderr : List Text) : List Candidate → Except Text Printed
  | [] => .ok ⟨["proceed".toList], stderr⟩
  | c :: rest =>
      match releases c.number with
      | none => .error ("no pull request data for #".toList ++ c.number
          ++ ", the release commit ".toList ++ getPrefix c.sha 12)
      | some entry =>
          if !testValidReleaseCommit entry c.sha then
            pendingCutLoop git releases tip stderr rest
          else
            match testFaithfulReleaseCommit git entry c.sha with
            | .error e => .error e
            | .ok faithful =>
                let commit := "release commit ".toList ++ getPrefix c.sha 12
                  ++ " (#".toList ++ c.number ++ ") abandoned: ".toList
                if faithful && ceq c.sha tip then
                  .ok ⟨["waiting".toList], stderr⟩
                else if !faithful then
                  .ok ⟨["abandoned".toList], stderr ++ [commit
                    ++ ("its parent or tree differs from the head of the "
                      ++ "pull request").toList]⟩
                else
                  .ok ⟨["abandoned".toList], stderr ++ [commit
                    ++ ("it has no release tag and is not the origin/main "
                      ++ "tip").toList]⟩

/-- `Invoke-PendingCutRun`. -/
def pendingCut (git : Git) (releases : PrReleases) : Except Text Printed :=
  match resolveBase git [] with
  | .error e => .error e
  | .ok tip =>
      match getReleaseCandidates git tip with
      | .error e => .error e
      | .ok (candidates, stderr) =>
          pendingCutLoop git releases tip stderr candidates

/-- The end of `Invoke-ReleaseCommitRun`: is the last tag on the
commit? -/
def tagOrTagged (git : Git) (sha : Text) : Except Text Printed :=
  match getLastVersion git with
  | .error e => .error e
  | .ok (latest, stderr) =>
      match getGitOutput git (listPointsAt sha) with
      | .error e => .error e
      | .ok out =>
          if ccontains (splitWords out) (tagName latest) then
            .ok ⟨["tagged".toList], stderr⟩
          else .ok ⟨["tag".toList], stderr⟩

/-- `Invoke-ReleaseCommitRun`. -/
def releaseCommit (git : Git) (releases : PrReleases) (sha : Text) :
    Except Text Printed :=
  match getGitOutput git (logSubject sha) with
  | .error e => .error e
  | .ok subject =>
      match releaseSubject subject with
      | none => .ok ⟨["not-release".toList], []⟩
      | some number =>
          match releases number with
          | none => .error ("no pull request data for #".toList ++ number
              ++ ", the subject of ".toList ++ getPrefix sha 12)
          | some entry =>
              match getReleaseCommitFault entry sha with
              | some ⟨.inconsistent, reason⟩ => .error (getPrefix sha 12
                  ++ " is a release/next (#".toList ++ number
                  ++ ") commit, but ".toList ++ reason)
              | some ⟨.foreign, _⟩ => .ok ⟨["not-release".toList], []⟩
              | none =>
                  match testFaithfulReleaseCommit git entry sha with
                  | .error e => .error e
                  | .ok false => .ok ⟨["not-faithful".toList], []⟩
                  | .ok true => tagOrTagged git sha

end RestifyCapl.Ci
