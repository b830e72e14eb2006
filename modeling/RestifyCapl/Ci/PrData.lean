/-
The pull-request data of the release workflows: the scripts that ask
GitHub for it and write it to a file (scripts/ci/fetch-pr-releases.sh, and
the step of release-pr.yml that fetches messages and files), and the
functions of scripts/ci/changelog.ps1 that read the file
(`Read-PrReleases`, `Read-PrMessages`, `Read-PrFiles`).

The scripts ask for one number a line. What `gh api` answers comes with
the line, so GitHub may change from one line to the next. `raw` is how
`jq -r` prints a value, and `date` says which texts `ConvertFrom-Json`
takes for a date.
-/
import RestifyCapl.Ci.Json
import RestifyCapl.Ci.PrBody

namespace RestifyCapl.Ci

open Lib

-- ================================================================= gh and sh

/-- What `gh api` came to. -/
inductive GhAnswer where
  | ok (body : Json)
  | failed (code : Nat) (err : Text)

/-- Why a script stops: its own message, or a filter of jq that fails. -/
inductive FetchStop where
  | error (message : Text)
  | jq

/-- `read -r`, of a line. -/
def readLine (line : Text) : Text :=
  let isBlank := fun c => c == ' ' || c == '\t'
  (line.dropWhile isBlank).rdropWhile isBlank

/-- The lines of `<<< "$out"`. -/
def hereLines (stdout : List Text) : List Text :=
  lines (joinLines stdout)

/-- `tr '\r\n' '  '`. -/
def oneLine (err : Text) : Text :=
  err.map fun c => if c = '\r' ∨ c = '\n' then ' ' else c

def jqResult {α : Type} : Option α → Except FetchStop α
  | none => .error .jq
  | some v => .ok v

/-- The loop of both scripts: `. + {($n): $e[0]}` for the entry of every
line that is not blank. -/
def fetchLoop {α β : Type} (line : α → Text)
    (fetch : Text → α → Except FetchStop β) (file : List (Text × β)) :
    List α → Except FetchStop (List (Text × β))
  | [] => .ok file
  | asked :: rest =>
      let n := readLine (line asked)
      if n = [] then fetchLoop line fetch file rest
      else
        match fetch n asked with
        | .error stop => .error stop
        | .ok entry => fetchLoop line fetch (setMember n entry file) rest

-- ==================================================== fetch-pr-releases.sh

/-- A line of the input, and the answers for it: the pull request, and the
head commit if it is asked for. -/
structure AskedPull where
  line : Text
  pull : GhAnswer
  commit : GhAnswer

/-- The filter that writes an entry. -/
def foundEntry (pull headParents headTree : Json) : Option Json := do
  let merged ← pull.path ["merged".toList]
  let mergeCommitSha ← pull.path ["merge_commit_sha".toList]
  let baseRef ← pull.path ["base".toList, "ref".toList]
  let baseRepo ← pull.path
    ["base".toList, "repo".toList, "full_name".toList]
  let headRef ← pull.path ["head".toList, "ref".toList]
  let headSha ← pull.path ["head".toList, "sha".toList]
  some (.obj [
    ("found".toList, .bool true),
    ("merged".toList, merged),
    ("mergeCommitSha".toList, mergeCommitSha),
    ("baseRef".toList, baseRef),
    ("baseRepo".toList, baseRepo),
    ("headRef".toList, headRef),
    ("headRepo".toList, Json.orNull
      (pull.path ["head".toList, "repo".toList, "full_name".toList])),
    ("headSha".toList, headSha),
    ("headParents".toList, headParents),
    ("headTree".toList, headTree)])

/-- `[$c[0].parents[].sha]`. -/
def parentShas (commit : Json) : Option Json := do
  let parents ← commit.field "parents".toList
  let parents ← parents.each
  let shas ← parents.mapM fun p => p.field "sha".toList
  some (.arr shas)

def notFoundEntry : Json := .obj [("found".toList, .bool false)]

/-- The entry of a pull request. -/
def fetchPull (raw : Json → Text) (n : Text) (asked : AskedPull) :
    Except FetchStop Json :=
  match asked.pull with
  | .failed code err =>
      if contains "HTTP 404".toList err then .ok notFoundEntry
      else .error (.error ("could not read pull request #".toList ++ n
        ++ " (exit ".toList ++ format code ++ "): ".toList ++ oneLine err))
  | .ok pull =>
      match pull.path ["head".toList, "sha".toList] with
      | none => .error .jq
      | some head =>
          let headSha := (raw head).rdropWhile (· == '\n')
          if ¬ IsSha headSha then
            .error (.error ("unexpected head commit of pull request #".toList
              ++ n ++ ": ".toList ++ headSha))
          else
            match asked.commit with
            | .ok commit =>
                jqResult (do
                  let parents ← parentShas commit
                  let tree ← commit.path
                    ["commit".toList, "tree".toList, "sha".toList]
                  foundEntry pull parents tree)
            | .failed code err =>
                if contains "HTTP 404".toList err
                    ∨ contains "HTTP 422".toList err then
                  jqResult (foundEntry pull .null .null)
                else
                  .error (.error ("could not read the head commit ".toList
                    ++ headSha ++ " of pull request #".toList ++ n
                    ++ " (exit ".toList ++ format code ++ "): ".toList
                    ++ oneLine err))

/-- `fetch-pr-releases.sh`: the members of the file. -/
def fetchPrReleases (raw : Json → Text) (asked : List AskedPull) :
    Except FetchStop (List (Text × Json)) :=
  fetchLoop AskedPull.line (fetchPull raw) [] asked

-- ========================================== release-pr.yml, messages and files

/-- A line of the output of `prs`, and the answers for it: all pages of the
commits and of the changed files. -/
structure AskedCommits where
  line : Text
  commits : GhAnswer
  changed : GhAnswer

/-- `[.[][]<path>]`. -/
def ofPages (names : List Text) (pages : Json) : Option Json := do
  let pages ← pages.each
  let items ← pages.mapM Json.each
  let values ← items.flatten.mapM fun item => item.path names
  some (.arr values)

/-- The messages of a pull request, and the names of its files. -/
def fetchCommits (n : Text) (asked : AskedCommits) :
    Except FetchStop (Json × Json) :=
  match asked.commits with
  | .failed code _ =>
      .error (.error ("could not read the commits of pull request #".toList
        ++ n ++ " (exit ".toList ++ format code ++ ")".toList))
  | .ok commits =>
      match asked.changed with
      | .failed code _ =>
          .error (.error ("could not read the changed files of pull ".toList
            ++ "request #".toList ++ n ++ " (exit ".toList ++ format code
            ++ ")".toList))
      | .ok changed =>
          jqResult (do
            let messages ← ofPages ["commit".toList, "message".toList] commits
            let names ← ofPages ["filename".toList] changed
            some (messages, names))

/-- Step `fetch`: the members of both files, which get their numbers
together. -/
def fetchPrMessages (asked : List AskedCommits) :
    Except FetchStop (List (Text × Json × Json)) :=
  fetchLoop AskedCommits.line fetchCommits [] asked

def messagesFile (file : List (Text × Json × Json)) : Json :=
  .obj (file.map fun m => (m.1, m.2.1))

def filesFile (file : List (Text × Json × Json)) : Json :=
  .obj (file.map fun m => (m.1, m.2.2))

-- ============================================================= changelog.ps1

/-- What `Read-PrMessages`, `Read-PrFiles` and `Read-PrReleases` share: no
path is no data, and the file is an object that is read value by value. -/
def readPrObject {α : Type} (what : Text)
    (readValue : Text → Json → Except Text α) (path : Text)
    (file : Except Text Json) : Except Text (Text → Option α) :=
  if path = [] then .ok fun _ => none
  else
    match file with
    | .error message =>
        .error ("cannot read ".toList ++ path ++ ": ".toList ++ message)
    | .ok json =>
        match json.converted with
        | .obj members =>
            match members.mapM fun m => (readValue m.1 m.2).map (m.1, ·) with
            | .error e => .error e
            | .ok entries => .ok fun n => entries.lookup n
        | _ => .error (path ++ (" must hold a JSON object of pull request "
            ++ "number to ").toList ++ what)

variable (date : Text → Bool)

/-- `Read-PrMessages`. -/
def readPrMessages (path : Text) (file : Except Text Json) :
    Except Text PrMessages :=
  readPrObject "an array of commit messages".toList
    (fun key value =>
      if value.isStrings date then .ok (value.texts?.getD [])
      else .error (path ++ ": the value of \"".toList ++ key
        ++ "\" must be an array of strings".toList))
    path file

/-- A changed file: its name, or an object with it. -/
def changedFile : Json → Option Text
  | .str t => if date t then none else some t
  | .obj members =>
      let name := Json.item "filename".toList members
      if name.isString date then some name.text else none
  | _ => none

/-- `Read-PrFiles`. -/
def readPrFiles (path : Text) (file : Except Text Json) :
    Except Text PrFiles :=
  readPrObject "an array of changed files".toList
    (fun key value =>
      match value with
      | .arr items =>
          match items.mapM (changedFile date) with
          | some names => .ok names
          | none => .error (path ++ ": each changed file of \"".toList ++ key
              ++ ("\" must be a path string or an object with a \"filename\" "
                ++ "string").toList)
      | _ => .error (path ++ ": the value of \"".toList ++ key
          ++ "\" must be an array of changed files".toList))
    path file

/-- `'{0}: "{1}" of "{2}" ...' -f $path, $name, $key`. -/
def ofEntry (path name key rest : Text) : Text :=
  path ++ ": \"".toList ++ name ++ "\" of \"".toList ++ key ++ "\" ".toList
    ++ rest

/-- The first of some members that fails a test. -/
def faultOf (names : List Text) (fails : Text → Bool)
    (message : Text → Text) : Option Text :=
  (names.find? fails).map message

/-- The last checks of an entry that has `found` true. -/
def mergedFault (path key : Text) (e : List (Text × Json)) : Option Text :=
  let parents := Json.item "headParents".toList e
  match Json.item "merged".toList e with
  | .bool merged =>
      if merged && (Json.item "mergeCommitSha".toList e).isNull then
        some (ofEntry path "mergeCommitSha".toList key
          "must not be null when \"merged\" is true".toList)
      else if !parents.isNull && !parents.isStrings date then
        some (ofEntry path "headParents".toList key
          "must be an array of strings or null".toList)
      else none
  | _ => some (ofEntry path "merged".toList key "must be a boolean".toList)

/-- What is wrong with such an entry, in the order of the checks. -/
def entryFault (path key : Text) (e : List (Text × Json)) : Option Text :=
  (faultOf ["mergeCommitSha".toList, "headRepo".toList, "headParents".toList,
      "headTree".toList]
    (fun name => !Json.containsKey name e)
    fun name => ofEntry path name key "is missing".toList) <|>
  (faultOf ["baseRef".toList, "baseRepo".toList, "headRef".toList,
      "headSha".toList]
    (fun name => !(Json.item name e).isString date)
    fun name => ofEntry path name key "must be a string".toList) <|>
  (faultOf ["mergeCommitSha".toList, "headRepo".toList, "headTree".toList]
    (fun name => !(Json.item name e).isNull
      && !(Json.item name e).isString date)
    fun name => ofEntry path name key "must be a string or null".toList) <|>
  mergedFault date path key e

/-- The data of an entry that has none wrong. -/
def entryData (e : List (Text × Json)) : PrData where
  merged :=
    match Json.item "merged".toList e with
    | .bool merged => merged
    | _ => false
  mergeCommitSha := (Json.item "mergeCommitSha".toList e).text?
  baseRef := (Json.item "baseRef".toList e).text
  baseRepo := (Json.item "baseRepo".toList e).text
  headRef := (Json.item "headRef".toList e).text
  headRepo := (Json.item "headRepo".toList e).text?
  headParents := (Json.item "headParents".toList e).texts?
  headTree := (Json.item "headTree".toList e).text?

def readFound (path key : Text) (e : List (Text × Json)) :
    Except Text PrEntry :=
  match entryFault date path key e with
  | some fault => .error fault
  | none => .ok (some (entryData e))

/-- The value of a number in `Read-PrReleases`. -/
def readEntry (path key : Text) (value : Json) : Except Text PrEntry :=
  let refused := path ++ ": the value of \"".toList ++ key
    ++ "\" must be an object with a boolean \"found\"".toList
  match value with
  | .obj e =>
      match Json.item "found".toList e with
      | .bool true => readFound date path key e
      | .bool false => .ok none
      | _ => .error refused
  | _ => .error refused

/-- `Read-PrReleases`. -/
def readPrReleases (path : Text) (file : Except Text Json) :
    Except Text PrReleases :=
  readPrObject "pull request data".toList (readEntry date path) path file

end RestifyCapl.Ci
