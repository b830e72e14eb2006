/-
The commits since the last tag, as scripts/ci/changelog.ps1 lists them:
what it reads of a subject and of the messages of a pull request, the
range with both, and the entries of a section.

The message map of `-PrMessages` is taken as read: from the number of a
pull request to its messages.
-/
import RestifyCapl.Ci.Changelog

namespace RestifyCapl.Ci

-- ================================================================ subjects

/-- The branch of a subject; `unknown` where the prefix is none of them. -/
inductive BranchType where
  | feat
  | stage
  | fix
  | chore
  | docs
  | release
  | unknown
deriving DecidableEq, Repr

structure Subject where
  text : Text
  number : Nat
  type : BranchType
deriving DecidableEq

/-- `$ReSquash`, and its groups; read from the end. -/
def reSquash (t : Text) : Option (Text × Text) :=
  atEnd (fun t =>
    match t.reverse with
    | ')' :: rest =>
        let digits := rest.takeWhile isAsciiDigit
        match rest.dropWhile isAsciiDigit with
        | '#' :: '(' :: ' ' :: c :: more =>
            if digits ≠ [] ∧ digits.length ≤ 9 ∧ isWhiteSpace c = false
                ∧ '\n' ∉ more then
              some ((c :: more).reverse, digits.reverse)
            else none
        | _ => none
    | _ => none) t

/-- `$ReBranchType`. -/
def branchTypes : List (Text × BranchType) :=
  [("feat/".toList, .feat), ("stage/".toList, .stage), ("fix/".toList, .fix),
    ("chore/".toList, .chore), ("docs/".toList, .docs),
    ("release/".toList, .release)]

def branchType (t : Text) : BranchType :=
  match branchTypes.find? fun branch => branch.1.isPrefixOf t with
  | some (_, type) => type
  | none => .unknown

/-- `Read-Subject`. -/
def readSubject (subject : Text) : Subject :=
  let text := trim subject
  match reSquash text with
  | some (text, digits) => ⟨text, toInt digits, branchType text⟩
  | none => ⟨text, 0, branchType text⟩

-- ================================================================ messages

structure Message where
  type : Text
  breaking : Bool
  text : Text
deriving DecidableEq

/-- ``Replace("`r`n", "`n")``. -/
def replaceCrLf : Text → Text
  | '\r' :: '\n' :: rest => '\n' :: replaceCrLf rest
  | c :: rest => c :: replaceCrLf rest
  | [] => []

/-- `(?:\([^()]*\))?`. -/
def skipScope (t : Text) : Text :=
  match t with
  | '(' :: inner =>
      match inner.dropWhile fun c => c != '(' && c != ')' with
      | ')' :: after => after
      | _ => t
  | _ => t

/-- `(!)?`. -/
def takeBang (t : Text) : Bool × Text :=
  match t with
  | '!' :: rest => (true, rest)
  | _ => (false, t)

/-- `$ReMessageHead`, and its groups. -/
def reMessageHead (t : Text) : Option (Text × Bool × Text) :=
  atEnd (fun t =>
    let type := t.takeWhile (inRange 97 122)
    let (bang, rest) := takeBang (skipScope (t.dropWhile (inRange 97 122)))
    match rest with
    | ':' :: ' ' :: c :: more =>
        if type ≠ [] ∧ isWhiteSpace c = false ∧ '\n' ∉ more then
          some (type, bang, c :: more)
        else none
    | _ => none) t

/-- `$ReBreakingFooter`, and its group. -/
def reBreakingFooter (t : Text) : Option Text :=
  atEnd (fun t =>
    if ("BREAKING CHANGE:".toList <+: t ∨ "BREAKING-CHANGE:".toList <+: t)
        ∧ '\n' ∉ t then
      some ((t.drop 16).dropWhile isBlankChar)
    else none) t

/-- A message by its first line. -/
def readHead (first : Text) : Message :=
  match reMessageHead first with
  | some (type, bang, text) => ⟨type, bang, trim text⟩
  | none => ⟨[], false, first⟩

variable [Culture]

/-- `Read-Message`. -/
def readMessage (message : Text) : Message :=
  let ls := lines (replaceCrLf message)
  let head := readHead (trim (ls.headD []))
  match ls.tail.findSome? reBreakingFooter with
  | none => head
  | some footer =>
      { head with
        breaking := true
        text := if !isEmptyText (trim footer) then trim footer else head.text }

-- =============================================================== the range

abbrev PrMessages := Text → Option (List Text)

structure RangeCommit where
  sha : Text
  pre : Bool
  subject : Subject
  messages : List Message

structure Range where
  latest : Version
  tag : Text
  commits : List RangeCommit
  stderr : List Text

/-- `$CutOffSha`. -/
def cutOffSha : Text := "df84cf03894e55c41d2197e344f6e21e492490aa".toList

def listBefore : List Text :=
  ["rev-list".toList, "--first-parent".toList, cutOffSha]

/-- The messages of a commit: of its pull request, where it has one that is
no release. -/
def messagesOf (messages : PrMessages) (s : Subject) : List Message :=
  if s.number > 0 ∧ s.type ≠ .release then
    ((messages (format s.number)).getD []).map readMessage
  else []

def rangeCommit (before : List Text) (messages : PrMessages) (e : LogEntry) :
    RangeCommit :=
  let subject := readSubject e.subject
  ⟨e.sha, decide (e.sha ∈ before), subject, messagesOf messages subject⟩

/-- `Get-Range`: oldest first. -/
def getRange (git : Git) (base : Text) (messages : PrMessages) :
    Except Text Range :=
  match getRangeLog git base with
  | .error e => .error e
  | .ok log =>
      match getGitOutput git listBefore with
      | .error e => .error e
      | .ok out =>
          .ok ⟨log.latest, log.tag,
            log.entries.reverse.map (rangeCommit (splitWords out) messages),
            log.stderr⟩

-- ============================================================= the entries

/-- `Format-Entry`. -/
def formatEntry (text : Text) (number : Nat) (repoUrl : Text) : Text :=
  let line := "- ".toList ++ text
  if number > 0 then
    line ++ " ([#".toList ++ format number ++ "](".toList ++ repoUrl
      ++ "/pull/".toList ++ format number ++ "))".toList
  else line

structure Entries where
  breaking : List Text
  added : List Text
  fixed : List Text
  development : List Text
  warnings : List Text

namespace Entries

def addBreaking (e : Entries) (ls : List Text) : Entries :=
  { e with breaking := e.breaking ++ ls }

def addAdded (e : Entries) (ls : List Text) : Entries :=
  { e with added := e.added ++ ls }

def addFixed (e : Entries) (ls : List Text) : Entries :=
  { e with fixed := e.fixed ++ ls }

def addDevelopment (e : Entries) (ls : List Text) : Entries :=
  { e with development := e.development ++ ls }

/-- A warning, where there is one. -/
def warn (e : Entries) (condition : Bool) (warning : Text) : Entries :=
  if condition then { e with warnings := e.warnings ++ [warning] } else e

end Entries

/-- The messages that are listed by themselves. -/
def isTyped (m : Message) : Bool :=
  !m.breaking && (m.type == "feat".toList || m.type == "stage".toList
    || m.type == "fix".toList)

def isFix (m : Message) : Bool := m.type == "fix".toList

def noNumber (s : Subject) : Text :=
  "the subject \"".toList ++ s.text
    ++ ("\" has no \"(#N)\"; its commit messages and breaking markers were "
      ++ "not read").toList

def noTypedMessage (s : Subject) : Text :=
  "\"".toList ++ s.text
    ++ ("\" has no feat, stage, fix or breaking commit message; it is listed "
      ++ "by its branch name").toList

def noBranchPrefix (s : Subject) : Text :=
  "the subject \"".toList ++ s.text
    ++ ("\" does not start with a feat/, stage/, fix/, chore/ or docs/ branch "
      ++ "prefix; it is listed under Development").toList

/-- One turn of the loop of `Get-Entries`. -/
def addCommit (repoUrl : Text) (e : Entries) (c : RangeCommit) : Entries :=
  let s := c.subject
  let entry := fun text => formatEntry text s.number repoUrl
  let entriesOf := List.map fun m : Message => entry m.text
  if s.type = .release then e
  else if c.pre then e.addDevelopment [entry s.text]
  else
    let breaking := c.messages.filter Message.breaking
    let e := (e.warn (s.number == 0) (noNumber s)).addBreaking
      (entriesOf breaking)
    if s.type = .feat ∨ s.type = .stage ∨ s.type = .fix then
      let typed := c.messages.filter isTyped
      let e := (e.addFixed (entriesOf (typed.filter isFix))).addAdded
        (entriesOf (typed.filter fun m => !isFix m))
      if typed.length + breaking.length = 0 then
        if s.type = .fix then
          (e.addFixed [entry s.text]).warn true (noTypedMessage s)
        else (e.addAdded [entry s.text]).warn true (noTypedMessage s)
      else e
    else
      let e := e.warn (s.type == .unknown) (noBranchPrefix s)
      if breaking.isEmpty then e.addDevelopment [entry s.text] else e

/-- `Get-Entries`. -/
def getEntries (range : Range) (repoUrl : Text) : Entries :=
  range.commits.foldl (addCommit repoUrl) ⟨[], [], [], [], []⟩

/-- A part of a section. -/
def partLines (title : String) (entries : List Text) : List Text :=
  if entries.isEmpty then []
  else [[], "### ".toList ++ title.toList, []] ++ entries

/-- `Get-SectionLines`. -/
def getSectionLines (e : Entries) (heading : Text) : List Text :=
  heading :: (partLines "Breaking changes" e.breaking
    ++ partLines "Added" e.added ++ partLines "Fixed" e.fixed
    ++ partLines "Development" e.development)

end RestifyCapl.Ci
