/-
The level of a release, as scripts/ci/changelog.ps1 computes it from the
commits since the last tag, what a level does to a version, and the runs
`prs`, `level`, `next-version` and `release-prs`.
-/
import RestifyCapl.Ci.Generate
import Mathlib.Data.List.Dedup
import Mathlib.Data.List.Sort

namespace RestifyCapl.Ci

-- ================================================================== levels

/-- `$Levels`. -/
inductive Level where
  | major
  | minor
  | patch
  | none
deriving DecidableEq, Repr

def Level.text : Level → Text
  | .major => "major".toList
  | .minor => "minor".toList
  | .patch => "patch".toList
  | .none => "none".toList

/-- `$breaking`, `$minor` and `$patch` of `Get-Level`. -/
structure Raised where
  breaking : Bool
  minor : Bool
  patch : Bool

/-- One turn of the loop of `Get-Level`. -/
def raise (r : Raised) (c : RangeCommit) : Raised :=
  if c.pre ∨ c.subject.type = .release then r
  else
    let r := if (c.messages.filter Message.breaking).length > 0 then
      { r with breaking := true } else r
    if c.subject.type = .feat ∨ c.subject.type = .stage then
      { r with minor := true }
    else if c.subject.type = .fix then { r with patch := true }
    else r

/-- `Get-Level`. -/
def getLevel (range : Range) : Level :=
  let r := range.commits.foldl raise ⟨false, false, false⟩
  if r.breaking ∧ (ofLex range.latest).1 ≥ 1 then .major
  else if r.breaking ∨ r.minor then .minor
  else if r.patch then .patch
  else .none

-- ================================================================ versions

/-- `'{0}.{1}.{2}'`. -/
def versionText (major minor patch : Nat) : Text :=
  ['.'].intercalate [format major, format minor, format patch]

def labels : List Text :=
  ["bump:major".toList, "bump:minor".toList, "bump:patch".toList]

/-- The level a label or, without one, the level argument names. -/
def shownLevel (level label : Text) : Text :=
  if label ≠ [] then label.drop "bump:".length else level

variable [Culture]

/-- The fields of the next version. -/
def nextFields (level : Text) (latest : Version) : Nat × Nat × Nat :=
  let (major, minor, patch) :=
    ((ofLex latest).1, (ofLex (ofLex latest).2).1, (ofLex (ofLex latest).2).2)
  if switchEq level "major".toList then (major + 1, 0, 0)
  else if switchEq level "minor".toList then (major, minor + 1, 0)
  else (major, minor, patch + 1)

/-- `Get-NextVersion`, from the last version. -/
def getNextVersion (level label : Text) (latest : Version) :
    Except Text Text :=
  let level := shownLevel level label
  if ceq level "none".toList then
    .error "nothing to release: the level is none".toList
  else
    let (major, minor, patch) := nextFields level latest
    if major > maxField ∨ minor > maxField ∨ patch > maxField then
      .error ("the next version ".toList ++ versionText major minor patch
        ++ " has a field above ".toList ++ format maxField
        ++ " (version resource fields are 16-bit)".toList)
    else .ok (versionText major minor patch)

-- ==================================================================== runs

/-- `Invoke-Guarded`: an error is printed, and stops the run. -/
def invokeGuarded {α : Type} : Except Text α → Except Refusal α
  | .error e => .error (.stopped e)
  | .ok a => .ok a

omit [Culture] in
theorem invokeGuarded_ok {α : Type} {run : Except Text α} {a : α}
    (h : invokeGuarded run = .ok a) : run = .ok a := by
  cases run with
  | error e => cases h
  | ok b =>
      cases h
      rfl

def usageBase : Text :=
  "-Base must be a full 40-character lowercase hex commit hash".toList

/-- The range of a `-Base` argument. -/
def resolveRange (git : Git) (base : Text) (messages : PrMessages) :
    Except Text Range :=
  match resolveBase git base with
  | .error e => .error e
  | .ok base => getRange git base messages

/-- The pull requests whose messages are read. -/
def isListed (c : RangeCommit) : Bool :=
  !c.pre && decide (c.subject.type ≠ .release) && decide (c.subject.number > 0)

/-- `Sort-Object -Unique`. -/
def sortUnique (ns : List Nat) : List Nat := ns.dedup.insertionSort (· ≤ ·)

/-- The numbers that `prs` prints. -/
def prNumbers (range : Range) : List Nat :=
  sortUnique ((range.commits.filter isListed).map fun c => c.subject.number)

/-- `Invoke-PrsRun`. -/
def invokePrsRun (git : Git) (base : Text) : Except Refusal Printed :=
  if !testBaseArgument base then .error (.usage usageBase)
  else
    invokeGuarded <|
      match resolveRange git base fun _ => none with
      | .error e => .error e
      | .ok range => .ok ⟨(prNumbers range).map format, range.stderr⟩

/-- `Invoke-LevelRun`. -/
def invokeLevelRun (git : Git) (messages : PrMessages) (base : Text) :
    Except Refusal Printed :=
  if !testBaseArgument base then .error (.usage usageBase)
  else
    invokeGuarded <|
      match resolveRange git base messages with
      | .error e => .error e
      | .ok range => .ok ⟨[(getLevel range).text], range.stderr⟩

/-- `Invoke-NextVersionRun`. -/
def invokeNextVersionRun (git : Git) (level label : Text) :
    Except Refusal Printed :=
  if (level ≠ []) = (label ≠ []) then
    .error (.usage "give exactly one of -Level and -Label".toList)
  else if level ≠ []
      ∧ !ccontains ([Level.major, .minor, .patch, .none].map Level.text)
        level then
    .error (.usage "-Level must be major, minor, patch or none".toList)
  else if label ≠ [] ∧ !ccontains labels label then
    .error (.usage
      "-Label must be bump:major, bump:minor or bump:patch".toList)
  else
    invokeGuarded <|
      match getLastVersion git with
      | .error e => .error e
      | .ok (latest, stderr) =>
          match getNextVersion level label latest with
          | .error e => .error e
          | .ok next => .ok ⟨[next], stderr⟩

/-- The loop of `Invoke-ReleasePrsRun`: a number is printed once. -/
def unseen : List Text → List Candidate → List Text
  | _, [] => []
  | seen, c :: rest =>
      if c.number ∈ seen then unseen seen rest
      else c.number :: unseen (c.number :: seen) rest

/-- `Invoke-ReleasePrsRun`. -/
def invokeReleasePrsRun (git : Git) (base : Text) : Except Refusal Printed :=
  if !testBaseArgument base then .error (.usage usageBase)
  else
    invokeGuarded <|
      match resolveBase git base with
      | .error e => .error e
      | .ok base =>
          match getReleaseCandidates git base with
          | .error e => .error e
          | .ok (candidates, stderr) => .ok ⟨unseen [] candidates, stderr⟩

end RestifyCapl.Ci
