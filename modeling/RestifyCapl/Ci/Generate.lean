/-
The run `generate` of scripts/ci/changelog.ps1: the file without the
sections of abandoned cuts, and with the section of a new one.
-/
import RestifyCapl.Ci.Commits

namespace RestifyCapl.Ci

/-- The arguments; an empty one is not given. -/
structure GenerateArgs where
  base : Text
  date : Text
  repoUrl : Text

/-- How a run refuses: with the usage, or with an error. -/
inductive Refusal where
  | usage (message : Text)
  | stopped (message : Text)

structure Generated where
  output : Text
  sectionOutput : Text
  warnings : List Text
  stderr : List Text

-- =============================================================== arguments

/-- `Test-BaseArgument`. -/
def testBaseArgument (base : Text) : Bool := base.isEmpty || reBase base

def isLeapYear (year : Nat) : Bool :=
  year % 4 == 0 && (year % 100 != 0 || year % 400 == 0)

def daysInMonth (year month : Nat) : Nat :=
  if month = 2 then if isLeapYear year then 29 else 28
  else if month = 4 ∨ month = 6 ∨ month = 9 ∨ month = 11 then 30
  else 31

/-- `TryParseExact`, as `yyyy-MM-dd`. -/
def isRealDate (t : Text) : Bool :=
  let year := toInt (t.take 4)
  let month := toInt ((t.drop 5).take 2)
  let day := toInt ((t.drop 8).take 2)
  fits (dateShape isAsciiDigit) t && decide (1 ≤ year)
    && decide (1 ≤ month ∧ month ≤ 12)
    && decide (1 ≤ day ∧ day ≤ daysInMonth year month)

/-- What the arguments are refused for. -/
def testArguments (a : GenerateArgs) : Option Text :=
  if !testBaseArgument a.base then
    some "-Base must be a full 40-character lowercase hex commit hash".toList
  else if a.repoUrl ≠ [] ∧ !reRepoUrl a.repoUrl then
    some "-RepoUrl must be https://github.com/<owner>/<repo>".toList
  else if a.date ≠ [] ∧ (!reDate a.date || !isRealDate a.date) then
    some "-Date must be a real date as YYYY-MM-DD".toList
  else none

-- ================================================================= the run

variable [Culture]

/-- The repository, the lines without abandoned sections, and what goes to
stderr. -/
def readChangelog (git : Git) (ls : List Text) (short repoUrl : Text) :
    Except Text (Text × List Text × List Text) :=
  match getRepoUrl ls repoUrl with
  | .error e => .error e
  | .ok repo =>
      match removeUntaggedSections git ls with
      | .error e => .error e
      | .ok (kept, stderr) =>
          if kept.any ("## [".toList ++ short ++ "]".toList).isPrefixOf then
            .error ("the file already has a section for ".toList ++ short)
          else .ok (repo, kept, stderr)

/-- The section, the warnings and what goes to stderr. -/
def readSection (git : Git) (base : Text) (messages : PrMessages)
    (repo heading : Text) : Except Text (List Text × List Text × List Text) :=
  match getRange git base messages with
  | .error e => .error e
  | .ok range =>
      let entries := getEntries range repo
      if entries.breaking.length + entries.added.length + entries.fixed.length
          = 0 then
        .error ("nothing to release since ".toList ++ range.tag
          ++ (": no feat/, stage/ or fix/ change and no breaking marker after "
            ++ "the cut-off commit").toList)
      else .ok (getSectionLines entries heading, entries.warnings, range.stderr)

/-- The guarded part of `Invoke-GenerateRun`. -/
def generate (git : Git) (today : Text) (messages : PrMessages)
    (a : GenerateArgs) (text : Text) : Except Text Generated :=
  match resolveBase git a.base with
  | .error e => .error e
  | .ok base =>
      let date := if a.date = [] then today else a.date
      let short := getPrefix base 12
      match readChangelog git (lines text) short a.repoUrl with
      | .error e => .error e
      | .ok (repo, kept, ignored) =>
          let heading := "## [".toList ++ short ++ "] - ".toList ++ date
          match readSection git base messages repo heading with
          | .error e => .error e
          | .ok (sectionLines, warnings, stderr) =>
              .ok ⟨getGeneratedText kept short base repo sectionLines,
                joinLines sectionLines ++ ['\n'], warnings,
                ignored ++ stderr⟩

/-- `Invoke-GenerateRun`, on the text of the file. -/
def invokeGenerateRun (git : Git) (today : Text) (messages : PrMessages)
    (a : GenerateArgs) (text : Text) : Except Refusal Generated :=
  match testArguments a with
  | some message => .error (.usage message)
  | none =>
      match generate git today messages a text with
      | .error e => .error (.stopped e)
      | .ok generated => .ok generated

end RestifyCapl.Ci
