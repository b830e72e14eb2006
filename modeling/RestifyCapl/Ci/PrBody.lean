/-
The description of the release pull request, as scripts/ci/changelog.ps1
writes it (`pr-body`) and as it changes the version in it when the label
changes (`body-version`).

The file map of `-PrFiles` is taken as read: from the number of a pull
request to the files it changed.
-/
import RestifyCapl.Ci.Level

namespace RestifyCapl.Ci

variable [Culture]

-- ================================================================= preview

/-- `Format-VersionPreview`. -/
def formatVersionPreview (level label : Text) (latest : Version) :
    Except Text Text :=
  match getNextVersion level label latest with
  | .error e => .error e
  | .ok next => .ok ('v' :: next ++ " (".toList ++ tagName latest
      ++ " + ".toList ++ shownLevel level label ++ ")".toList)

def openMark : Text := "<!-- version -->".toList

def closeMark : Text := "<!-- /version -->".toList

/-- The first line of a description. -/
def previewLine (preview : Text) : Text :=
  "Version preview: ".toList ++ openMark ++ preview ++ closeMark

-- ============================================================= description

abbrev PrFiles := Text → Option (List Text)

/-- The arguments; an empty one is not given. -/
structure PrBodyArgs where
  base : Text
  repoUrl : Text
  label : Text

structure Described where
  output : Text
  warnings : List Text
  stderr : List Text

def exportTable : Text := "src/module/exports.cpp".toList

/-- The warning of a fix/ pull request that changed the export table. -/
def exportsWarning (files : PrFiles) (c : RangeCommit) : Option Text :=
  let key := format c.subject.number
  if c.pre ∨ c.subject.type ≠ .fix ∨ c.subject.number = 0 then none
  else if ccontains ((files key).getD []) exportTable then
    some ("the fix/ pull request #".toList ++ key
      ++ (" changed src/module/exports.cpp; confirm that no export table row "
        ++ "was renamed, reordered or removed").toList)
  else none

/-- All warnings: those of the entries, and those of the files. -/
def bodyWarnings (files : PrFiles) (range : Range) (e : Entries) : List Text :=
  e.warnings ++ range.commits.filterMap (exportsWarning files)

/-- The block that lists the breaking changes. -/
def cautionLines (breaking : List Text) : List Text :=
  if breaking.isEmpty then []
  else
    ["> [!CAUTION]".toList,
      "> **Breaking change.** This release contains:".toList, ">".toList]
      ++ breaking.map ("> ".toList ++ ·) ++ [[]]

/-- The preview of the release notes: a section without its heading and
without Development. -/
def notesPreview (e : Entries) : List Text :=
  (getSectionLines { e with development := [] } []).drop 1

def warningLines (warnings : List Text) : List Text :=
  if warnings.isEmpty then []
  else ["## Warnings".toList, []] ++ warnings.map ("- ".toList ++ ·) ++ [[]]

/-- The end of a description: what the reviewer is told and asked. -/
def reviewLines (breaking : List Text) : List Text :=
  ["## Review".toList, [],
    ("The release bot maintains this pull request: commits pushed to "
      ++ "\x60release/next\x60 by hand are overwritten the next time it "
      ++ "rebuilds the branch, and the checklist below is reset on every "
      ++ "rebuild. Squash-merging the pull request releases the version."
      ).toList,
    [],
    ("- [ ] The release notes above read correctly for DLL and CAPL users"
      ).toList,
    ("- [ ] The \x60bump:*\x60 label matches the intended version (the preview "
      ++ "is the last tag plus the label's level)").toList]
    ++ if breaking.isEmpty then []
      else [("- [ ] The breaking changes in the caution block above are "
        ++ "intended").toList]

/-- A description after its first line. -/
def bodyLines (e : Entries) (warnings : List Text) : List Text :=
  [] :: (cautionLines e.breaking
    ++ ["## Release notes".toList, [],
      ("Development entries stay in CHANGELOG.md and are left out of the "
        ++ "GitHub release notes.").toList]
    ++ notesPreview e ++ [[]] ++ warningLines warnings
    ++ reviewLines e.breaking)

/-- The lines of a description. -/
def descriptionLines (preview : Text) (e : Entries) (warnings : List Text) :
    List Text :=
  previewLine preview :: bodyLines e warnings

def nothingToRelease (tag : Text) : Text :=
  "nothing to release since ".toList ++ tag
    ++ (": no feat/, stage/ or fix/ change and no breaking marker after "
      ++ "the cut-off commit").toList

/-- The guarded part of `Invoke-PrBodyRun`. -/
def prBody (git : Git) (messages : PrMessages) (files : PrFiles)
    (a : PrBodyArgs) (text : Text) : Except Text Described :=
  match getRepoUrl (lines text) a.repoUrl with
  | .error e => .error e
  | .ok repo =>
      match resolveRange git a.base messages with
      | .error e => .error e
      | .ok range =>
          let entries := getEntries range repo
          let warnings := bodyWarnings files range entries
          if entries.breaking.length + entries.added.length
              + entries.fixed.length = 0 then
            .error (nothingToRelease range.tag)
          else
            match formatVersionPreview (getLevel range).text a.label
                range.latest with
            | .error e => .error e
            | .ok preview =>
                .ok ⟨joinLines (descriptionLines preview entries warnings)
                  ++ ['\n'], warnings, range.stderr⟩

def usageLabel : Text :=
  "-Label must be bump:major, bump:minor or bump:patch".toList

/-- What the arguments are refused for. -/
def testPrBodyArguments (a : PrBodyArgs) : Option Text :=
  if !testBaseArgument a.base then some usageBase
  else if a.repoUrl ≠ [] ∧ !reRepoUrl a.repoUrl then
    some "-RepoUrl must be https://github.com/<owner>/<repo>".toList
  else if a.label ≠ [] ∧ !ccontains labels a.label then some usageLabel
  else none

/-- `Invoke-PrBodyRun`, on the text of the CHANGELOG. -/
def invokePrBodyRun (git : Git) (messages : PrMessages) (files : PrFiles)
    (a : PrBodyArgs) (text : Text) : Except Refusal Described :=
  match testPrBodyArguments a with
  | some message => .error (.usage message)
  | none => invokeGuarded (prBody git messages files a text)

-- ============================================================= new version

/-- `t.Contains(s)`. -/
def contains (s t : Text) : Bool := t.tails.any s.isPrefixOf

/-- The parts that `Split` finds between separators that cannot overlap
themselves. -/
def splitCount (s t : Text) : Nat := t.tails.countP s.isPrefixOf + 1

/-- What follows the first `s`. -/
def afterFirst (s : Text) : Text → Option Text
  | [] => none
  | c :: t =>
      if s.isPrefixOf (c :: t) then some ((c :: t).drop s.length)
      else afterFirst s t

/-- `$ReVersionMarks`, and its groups, in one line: `.*` takes all it can,
so the last opening mark with a closing one after it counts. -/
def reVersionMarks : Text → Option (Text × Text)
  | [] => none
  | c :: t =>
      match reVersionMarks t with
      | some (opening, closing) => some (c :: opening, closing)
      | none =>
          if openMark.isPrefixOf (c :: t) then
            (afterFirst closeMark ((c :: t).drop openMark.length)).map
              fun after => (openMark, closeMark ++ after)
          else none

/-- A line with a mark. -/
def isMarked (line : Text) : Bool :=
  contains openMark line || contains closeMark line

/-- The marks of the only marked line, and the lines around it. -/
def findMarks (ls : List Text) :
    Option (List Text × (Text × Text) × List Text) :=
  match ls.dropWhile fun line => !isMarked line with
  | [] => none
  | line :: after =>
      match reVersionMarks line with
      | none => none
      | some marks =>
          if after.any isMarked || splitCount openMark line != 2
              || splitCount closeMark line != 2 then none
          else some (ls.takeWhile fun line => !isMarked line, marks, after)

def marksRefused (display : Text) (ls : List Text) : Text :=
  display
    ++ (" must hold exactly one line with both version markers in order; "
      ++ "found ").toList
    ++ format (ls.countP isMarked) ++ " line(s) with a marker".toList

/-- The guarded part of `Invoke-BodyVersionRun`: the new body, and what
goes to stderr. -/
def bodyVersion (git : Git) (display label text : Text) :
    Except Text (Text × List Text) :=
  match findMarks (lines text) with
  | none => .error (marksRefused display (lines text))
  | some (before, marks, after) =>
      match getLastVersion git with
      | .error e => .error e
      | .ok (latest, stderr) =>
          match formatVersionPreview [] label latest with
          | .error e => .error e
          | .ok preview =>
              .ok (joinLines (before ++ (marks.1 ++ preview ++ marks.2)
                :: after), stderr)

/-- `Invoke-BodyVersionRun`, on the text of the body. -/
def invokeBodyVersionRun (git : Git) (display label text : Text) :
    Except Refusal (Text × List Text) :=
  if !ccontains labels label then .error (.usage usageLabel)
  else invokeGuarded (bodyVersion git display label text)

end RestifyCapl.Ci
