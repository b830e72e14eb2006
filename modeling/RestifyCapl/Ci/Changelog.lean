/-
The lines of CHANGELOG.md, as scripts/ci/changelog.ps1 reads and edits
them: the patterns of a line, the sections the last tag does not carry,
and where a generated section and its link definition go.

A text is split at its line feeds, so no line has one; the carriage
return of a CRLF stays at the end of the line.
-/
import RestifyCapl.Ci.Release

namespace RestifyCapl.Ci

-- ================================================================ patterns

/-- The zeros of the digits that `\d` knows. -/
def digitZeros : List Nat :=
  [0x30, 0x660, 0x6F0, 0x7C0, 0x966, 0x9E6, 0xA66, 0xAE6, 0xB66, 0xBE6, 0xC66,
    0xCE6, 0xD66, 0xDE6, 0xE50, 0xED0, 0xF20, 0x1040, 0x1090, 0x17E0, 0x1810,
    0x1946, 0x19D0, 0x1A80, 0x1A90, 0x1B50, 0x1BB0, 0x1C40, 0x1C50, 0xA620,
    0xA8D0, 0xA900, 0xA9D0, 0xA9F0, 0xAA50, 0xABF0, 0xFF10]

/-- `\d`. -/
def isDecimalDigit (c : Char) : Bool :=
  digitZeros.any fun first => inRange first (first + 9) c

/-- `[ \t]`. -/
def isBlankChar (c : Char) : Bool := c == ' ' || c == '\t'

/-- A pattern with one class for each character. -/
abbrev Pattern := List (Char → Bool)

def literal (s : String) : Pattern := s.toList.map fun c d => d == c

def hex (n : Nat) : Pattern := List.replicate n isHex

def fits : Pattern → Text → Bool
  | [], [] => true
  | p :: ps, c :: t => p c && fits ps t
  | _, _ => false

/-- `\r?`, at the end of a pattern. -/
def dropCr (t : Text) : Text := if t.getLast? = some '\r' then t.dropLast else t

/-- A date, with a class for its digits. -/
def dateShape (digit : Char → Bool) : Pattern :=
  List.replicate 4 digit ++ literal "-" ++ List.replicate 2 digit
    ++ literal "-" ++ List.replicate 2 digit

/-- `$ReDate`. -/
def reDate (t : Text) : Bool :=
  (atEnd (fun t => if fits (dateShape isAsciiDigit) t then some () else none)
    t).isSome

/-- `$ReHead`. -/
def reHead (t : Text) : Bool := "## [".toList.isPrefixOf t

def hashHead : Pattern :=
  literal "## [" ++ hex 12 ++ literal "] - " ++ dateShape isDecimalDigit

def headHash (t : Text) : Option Text :=
  let t := dropCr t
  if fits hashHead t then some ((t.drop 4).take 12) else none

/-- `$ReHashHead`, and its group. -/
def reHashHead (t : Text) : Option Text := atEnd headHash t

/-- `$ReLinkDef`. -/
def reLinkDef (t : Text) : Bool :=
  match t with
  | '[' :: rest =>
      match rest.dropWhile (· != ']') with
      | ']' :: ':' :: target =>
          !(rest.takeWhile (· != ']')).isEmpty
            && (target.dropWhile isBlankChar).head?.any fun c => !isWhiteSpace c
      | _ => false
  | _ => false

def defHash : Pattern := literal "[" ++ hex 12 ++ literal "]:"

/-- `$ReDefHash`, and its group. -/
def reDefHash (t : Text) : Option Text :=
  if fits defHash (t.take 15) then some ((t.drop 1).take 12) else none

/-- `[^/\s]`. -/
def isUrlChar (c : Char) : Bool := c != '/' && !isWhiteSpace c

/-- `https://github\.com/[^/\s]+/[^/\s]+`, and what follows it. -/
def takeRepoUrl (t : Text) : Option (Text × Text) :=
  let host := "https://github.com/".toList
  if host.isPrefixOf t then
    let path := t.drop host.length
    let owner := path.takeWhile isUrlChar
    match path.dropWhile isUrlChar with
    | '/' :: rest =>
        let name := rest.takeWhile isUrlChar
        if owner.isEmpty || name.isEmpty then none
        else some (host ++ owner ++ '/' :: name, rest.dropWhile isUrlChar)
    | _ => none
  else none

/-- `$ReRepoUrl`. -/
def reRepoUrl (t : Text) : Bool :=
  (atEnd (fun t =>
    match takeRepoUrl t with
    | some (_, []) => some ()
    | _ => none) t).isSome

def defRepoUrl (t : Text) : Option Text :=
  let t := dropCr t
  if fits defHash (t.take 15) then
    match takeRepoUrl ((t.drop 15).dropWhile isBlankChar) with
    | some (url, rest) =>
        if fits (literal "/commit/" ++ hex 40) rest then some url else none
    | none => none
  else none

/-- `$ReRepoDef`, and its group. -/
def reRepoDef (t : Text) : Option Text := atEnd defRepoUrl t

/-- `$ReBlank`. -/
def reBlank (t : Text) : Bool :=
  (atEnd (fun t => if (dropCr t).all isBlankChar then some () else none)
    t).isSome

-- ================================================================ sections

/-- A line at which a section ends. -/
def endsSection (line : Text) : Bool := reHead line || reLinkDef line

/-- `Get-SectionEnd`. -/
def getSectionEnd (ls : List Text) (start : Nat) : Nat :=
  start + 1 + (ls.drop (start + 1)).findIdx endsSection

/-- The loop of `Remove-UntaggedSections`; `skipping` between a dropped
heading and the end of its section. -/
def keepLines (dropped : List Text) (skipping : Bool) :
    List Text → List Text
  | [] => []
  | line :: rest =>
      if skipping && !endsSection line then keepLines dropped true rest
      else if (reHashHead line).any (· ∈ dropped) then
        keepLines dropped true rest
      else if (reDefHash line).any (· ∈ dropped) then
        keepLines dropped false rest
      else line :: keepLines dropped false rest

def hashHeads (ls : List Text) : List Text := ls.filterMap reHashHead

/-- The lines without the sections of unreleased hashes. -/
def removeSections (released : List Text) (ls : List Text) : List Text :=
  let dropped := (hashHeads ls).filter (· ∉ released)
  if dropped.isEmpty then ls else keepLines dropped false ls

def showChangelog (tag : Text) : List Text :=
  ["show".toList, tag ++ ":CHANGELOG.md".toList]

/-- What `Remove-UntaggedSections` reads: the file at the last tag, and the
warnings on the way. -/
def showLastTag (git : Git) : Except Text (Text × List Text) :=
  match getLastVersion git with
  | .error e => .error e
  | .ok (latest, stderr) =>
      let tag := tagName latest
      let shown := git (showChangelog tag)
      if shown.code ≠ 0 then
        .error ("git show ".toList ++ tag ++ ":CHANGELOG.md failed: ".toList
          ++ trim shown.err)
      else .ok (shown.out, stderr)

/-- `Remove-UntaggedSections`. -/
def removeUntaggedSections (git : Git) (ls : List Text) :
    Except Text (List Text × List Text) :=
  match showLastTag git with
  | .error e => .error e
  | .ok (shown, stderr) =>
      .ok (removeSections (hashHeads (lines shown)) ls, stderr)

/-- The first URL of a link definition of a commit. -/
def firstRepoUrl (ls : List Text) : Option Text := ls.findSome? reRepoDef

/-- `Get-RepoUrl`. -/
def getRepoUrl (ls : List Text) (repoUrl : Text) : Except Text Text :=
  if repoUrl ≠ [] then .ok repoUrl
  else
    match firstRepoUrl ls with
    | some url => .ok url
    | none => .error ("no repository URL: the file has no link definition to "
        ++ "take it from; pass -RepoUrl").toList

-- =============================================================== inserting

variable [Culture]

/-- Where a section goes: the lines before it, a blank line with them
where they need one, its line ending, and the lines after it. -/
structure Insertion where
  before : List Text
  cr : Text
  after : List Text

/-- The lines before and after `$at`: the first heading, the first link
definition, or the end. -/
def splitAtSection (ls : List Text) : List Text × List Text :=
  if ls.any reHead then ls.span fun line => !reHead line
  else if ls.any reLinkDef then ls.span fun line => !reLinkDef line
  else if ls.getLast?.any isEmptyText then (ls.dropLast, ls.getLast?.toList)
  else (ls, [])

/-- `$reference`: the line at the place, or before it. -/
def referenceLine (before after : List Text) : Text :=
  match after.head? with
  | none => before.getLast?.getD []
  | some line =>
      if !isEmptyText line then line else before.getLast?.getD []

/-- The line ending of the reference. -/
def crOf (reference : Text) : Text :=
  if reference.getLast? = some '\r' then ['\r'] else []

/-- The last line is there, and is not blank. -/
def needsBlank (ls : List Text) : Bool := ls.getLast?.any fun line => !reBlank line

def withBlank (ls : List Text) (cr : Text) : List Text :=
  if needsBlank ls then ls ++ [cr] else ls

def insertionOf (ls : List Text) : Insertion :=
  let parts := splitAtSection ls
  let cr := crOf (referenceLine parts.1 parts.2)
  ⟨withBlank parts.1 cr, cr, parts.2⟩

/-- The generated lines: the definition goes before the first link
definition after the section, or to the end. -/
def render (i : Insertion) (sectionLines : List Text) (definition : Text) :
    List Text :=
  let out := i.before ++ sectionLines.map (· ++ i.cr) ++ [i.cr]
  match i.after.dropWhile fun line => !reLinkDef line with
  | next :: rest =>
      out ++ (i.after.takeWhile fun line => !reLinkDef line)
        ++ (definition ++ i.cr) :: next :: rest
  | [] =>
      let out := out ++ i.after
      if out.getLast?.any isEmptyText then
        withBlank out.dropLast i.cr ++ [definition ++ i.cr, []]
      else withBlank out i.cr ++ [definition]

def linkDefinition (short base repoUrl : Text) : Text :=
  '[' :: short ++ "]: ".toList ++ repoUrl ++ "/commit/".toList ++ base

/-- `Get-GeneratedText`. -/
def getGeneratedText (ls : List Text) (short base repoUrl : Text)
    (sectionLines : List Text) : Text :=
  joinLines (render (insertionOf ls) sectionLines
    (linkDefinition short base repoUrl))

end RestifyCapl.Ci
