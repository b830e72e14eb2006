/-
The release notes, as scripts/ci/changelog.ps1 takes them from the file
(`notes`): the section of the cut that the pushed tag is on, or in a dry
run the first section with something in it; without its heading and
without Development.
-/
import RestifyCapl.Ci.Changelog
import Mathlib.Data.List.Basic

namespace RestifyCapl.Ci

-- ================================================================ patterns

/-- `$ReH3`. -/
def reH3 (t : Text) : Bool := "### ".toList.isPrefixOf t

/-- `$ReDev`. -/
def reDev (t : Text) : Bool :=
  (atEnd (fun t =>
    if dropCr t = "### Development".toList then some () else none) t).isSome

-- ================================================================= section

/-- The lines without `### Development` and what is under it. -/
def dropDevelopment (body : List Text) : Except Text (List Text) :=
  match body.findIdxs reDev with
  | [] => .ok body
  | [dev] => .ok (body.take dev
      ++ (body.drop (dev + 1)).dropWhile fun line => !reH3 line)
  | _ => .error
      "the section has more than one \"### Development\" block".toList

/-- The lines without the blank ones at both ends. -/
def trimBlank (body : List Text) : List Text :=
  (body.dropWhile reBlank).rdropWhile reBlank

/-- Neither blank nor a title. -/
def hasText (line : Text) : Bool := !reBlank line && !reH3 line

/-- `Get-SectionBody`; none where titles are all it has. -/
def getSectionBody (ls : List Text) (start : Nat) :
    Except Text (Option (List Text)) :=
  let stop := getSectionEnd ls start
  match dropDevelopment ((ls.drop (start + 1)).take (stop - start - 1)) with
  | .error e => .error e
  | .ok body =>
      let body := trimBlank body
      .ok (if body.any hasText then some (body.map trimEndCr) else none)

-- ================================================================= release

/-- `-Mode`. -/
inductive Mode where
  | tag
  | dryRun
deriving DecidableEq, Repr

def Mode.text : Mode → Text
  | .tag => "tag".toList
  | .dryRun => "dry-run".toList

/-- The heading of a section, and its notes. -/
structure Release where
  chosen : Text
  body : List Text

def revParseParent (sha : Text) : List Text :=
  ["rev-parse".toList, sha ++ "^".toList]

/-- The heading of a hash that a commit begins with. -/
def isHeadOf (commit line : Text) : Bool :=
  (reHashHead line).any (·.isPrefixOf commit)

/-- `Resolve-Release` for a tag: the section of the first parent, where
there is one and no other. -/
def resolveTag (git : Git) (sha : Text) (ls : List Text) :
    Except Text Release :=
  match getGitOutput git (revParseParent sha) with
  | .error e => .error e
  | .ok parent =>
      match ls.findIdxs (isHeadOf parent) with
      | [start] =>
          let chosen := trimEndCr (ls.getD start [])
          match getSectionBody ls start with
          | .error e => .error e
          | .ok none => .error ("the CHANGELOG section ".toList ++ chosen
              ++ " is empty once \"### Development\" is removed".toList)
          | .ok (some body) => .ok ⟨chosen, body⟩
      | starts => .error (("the tag must be on the squash-merge commit of the "
            ++ "CHANGELOG cut; expected exactly one \"## [").toList
          ++ getPrefix parent 12 ++ "] - YYYY-MM-DD\" heading, found ".toList
          ++ format starts.length)

/-- The loop of `Resolve-Release` in a dry run, over the headings. -/
def resolveFirst (ls : List Text) : List Nat → Except Text Release
  | [] => .error ("no CHANGELOG.md section has release notes once "
      ++ "\"### Development\" is removed").toList
  | start :: starts =>
      match getSectionBody ls start with
      | .error e => .error e
      | .ok none => resolveFirst ls starts
      | .ok (some body) => .ok ⟨trimEndCr (ls.getD start []), body⟩

/-- `Resolve-Release`. -/
def resolveRelease (git : Git) (mode : Mode) (sha text : Text) :
    Except Text Release :=
  let ls := lines text
  match mode with
  | .tag => resolveTag git sha ls
  | .dryRun => resolveFirst ls (ls.findIdxs reHead)

-- ================================================================= the run

/-- What a run writes: the notes, and after them the line of the step
summary, where the environment names a file for it. -/
structure Noted where
  output : Text
  summary : Except Text Text

/-- `Add-Summary`. -/
def addSummary (hasSummary : Bool) (line : Text) : Except Text Text :=
  if hasSummary then .ok line
  else .error ("GITHUB_STEP_SUMMARY is not set; set it to a file path to run "
    ++ "this script outside GitHub Actions").toList

def notesSummary (mode : Mode) (chosen : Text) : Text :=
  "Release notes taken from the CHANGELOG section \x60".toList ++ chosen
    ++ "\x60 (".toList ++ mode.text ++ " mode).\n".toList

/-- `Invoke-Run`, as `notes`, on the text of the file. -/
def invokeNotesRun (git : Git) (hasSummary : Bool) (mode : Mode)
    (sha text : Text) : Except Text Noted :=
  match resolveRelease git mode sha text with
  | .error e => .error e
  | .ok release => .ok ⟨joinLines release.body ++ ['\n'],
      addSummary hasSummary (notesSummary mode release.chosen)⟩

end RestifyCapl.Ci
