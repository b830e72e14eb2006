/-
A release is made of what the pull requests say. The release bot asks
`prs` for numbers, fetches the messages and the changed files of these,
and gives both files to `level`, `generate` and `pr-body`. Each of these
runs comes to what it would come to with everything GitHub holds
(`fetched_messages_suffice`); a file is refused if `ConvertFrom-Json`
takes a message or a file name for a date, and only then.
-/
import RestifyCapl.Ci.Proofs.PrDataFile
import RestifyCapl.Ci.Proofs.PrNumbers

namespace RestifyCapl.Ci

open Lib

variable {git : Git} {base : Text}

-- ================================================================ the files

/-- What GitHub holds for a pull request. -/
structure PullCommits where
  messages : List Text
  files : List Text

/-- All pages, which say what GitHub holds. -/
inductive CommitsAnswered : AskedCommits → PullCommits → Prop
  | pages (line : Text) (commits changed : Json) (pull : PullCommits)
      (hmessages : ofPages ["commit".toList, "message".toList] commits
        = some (.arr (pull.messages.map .str)))
      (hfiles : ofPages ["filename".toList] changed
        = some (.arr (pull.files.map .str))) :
      CommitsAnswered ⟨line, .ok commits, .ok changed⟩ pull

def strings (ts : List Text) : Json := .arr (ts.map .str)

theorem fetchCommits_answered {asked : AskedCommits} {pull : PullCommits}
    (h : CommitsAnswered asked pull) (n : Text) :
    fetchCommits n asked = .ok (strings pull.messages, strings pull.files) := by
  cases h with
  | pages line commits changed pull hmessages hfiles =>
      unfold fetchCommits
      dsimp only
      rw [hmessages, hfiles]
      rfl

section Reading

variable (date : Text → Bool) {path : Text} (hpath : path ≠ [])
variable (members : List (Text × PullCommits))

include hpath

/-- The file of the messages, read back. -/
theorem readPrMessages_file :
    ((∃ read, readPrMessages date path (.ok (.obj
        (members.map fun m => (m.1, strings m.2.messages)))) = .ok read)
      ↔ ∀ m ∈ members, ∀ t ∈ m.2.messages, date t = false)
    ∧ ∀ read, readPrMessages date path (.ok (.obj
        (members.map fun m => (m.1, strings m.2.messages)))) = .ok read →
      ∀ n, read n = (members.lookup n).map PullCommits.messages := by
  apply readPrObject_values "an array of commit messages".toList _
    (fun pull => strings pull.messages) PullCommits.messages
    (fun pull => ∀ t ∈ pull.messages, date t = false) hpath
  · intro key pull h
    unfold strings
    rw [Json.isStrings_strs, if_pos (by simpa using h), Json.texts?_strs]
    rfl
  · intro key pull h read
    unfold strings
    rw [Json.isStrings_strs, if_neg (by simpa using h)]
    exact nofun

omit hpath in
theorem mapM_changedFile (files : List Text) :
    (files.map Json.str).mapM (changedFile date)
      = if files.all fun t => !date t then some files else none := by
  induction files with
  | nil => rfl
  | cons t files ih =>
      rw [List.map_cons, List.mapM_cons, ih, List.all_cons]
      cases hdate : date t with
      | true =>
          have hfile : changedFile date (.str t) = none := if_pos hdate
          rw [hfile]
          rfl
      | false =>
          have hfile : changedFile date (.str t) = some t :=
            if_neg (by rw [hdate]; exact Bool.false_ne_true)
          rw [hfile, Bool.not_false, Bool.true_and]
          split <;> rfl

/-- The file of the changed files, read back. -/
theorem readPrFiles_file :
    ((∃ read, readPrFiles date path (.ok (.obj
        (members.map fun m => (m.1, strings m.2.files)))) = .ok read)
      ↔ ∀ m ∈ members, ∀ t ∈ m.2.files, date t = false)
    ∧ ∀ read, readPrFiles date path (.ok (.obj
        (members.map fun m => (m.1, strings m.2.files)))) = .ok read →
      ∀ n, read n = (members.lookup n).map PullCommits.files := by
  apply readPrObject_values "an array of changed files".toList _
    (fun pull => strings pull.files) PullCommits.files
    (fun pull => ∀ t ∈ pull.files, date t = false) hpath
  · intro key pull h
    unfold strings
    dsimp only
    rw [mapM_changedFile, if_pos (by simpa using h)]
  · intro key pull h read
    unfold strings
    dsimp only
    rw [mapM_changedFile, if_neg (by simpa using h)]
    exact nofun

end Reading

-- ================================================================= the runs

/-- What the runs read of a range does not depend on its messages. -/
theorem prNumbers_messages [Culture] {resolved : Text} {messages : PrMessages}
    {range : Range} (h : getRange git resolved messages = .ok range) :
    ∃ bare, getRange git resolved (fun _ => none) = .ok bare
      ∧ prNumbers range = prNumbers bare := by
  unfold getRange at h ⊢
  cases hlog : getRangeLog git resolved with
  | error e =>
      rw [hlog] at h
      cases h
  | ok log =>
      rw [hlog] at h
      dsimp only at h ⊢
      cases hout : getGitOutput git listBefore with
      | error e =>
          rw [hout] at h
          cases h
      | ok out =>
          rw [hout] at h
          cases h
          refine ⟨_, rfl, ?_⟩
          unfold prNumbers
          dsimp only
          rw [List.filter_map, List.filter_map, List.map_map, List.map_map]
          rfl

/-- The files are read of commits that `prs` prints. -/
theorem exportsWarning_agree [Culture] {files₁ files₂ : PrFiles} {c : RangeCommit}
    (h : isListed c = true →
      files₁ (format c.subject.number) = files₂ (format c.subject.number)) :
    exportsWarning files₁ c = exportsWarning files₂ c := by
  unfold exportsWarning
  dsimp only
  by_cases hskip : c.pre ∨ c.subject.type ≠ .fix ∨ c.subject.number = 0
  · rw [if_pos hskip, if_pos hskip]
  · rw [if_neg hskip, if_neg hskip, h]
    rw [not_or, not_or, not_not] at hskip
    obtain ⟨hpre, htype, hnumber⟩ := hskip
    unfold isListed
    rw [htype]
    simp [hpre, Nat.pos_of_ne_zero hnumber]

theorem bodyWarnings_agree [Culture] {files₁ files₂ : PrFiles} {range : Range}
    (h : AgreeOn ((prNumbers range).map format) files₁ files₂) (e : Entries) :
    bodyWarnings files₁ range e = bodyWarnings files₂ range e := by
  unfold bodyWarnings
  congr 1
  apply List.filterMap_congr
  intro c hc
  apply exportsWarning_agree
  intro hlisted
  exact h _ (List.mem_map_of_mem (mem_prNumbers.mpr ⟨c, hc, hlisted, rfl⟩))

theorem stdoutOf_prs [Culture] {messages : PrMessages} {range : Range}
    (hbase : testBaseArgument base = true)
    (h : resolveRange git base messages = .ok range) :
    stdoutOf (invokePrsRun git base) = (prNumbers range).map format := by
  unfold resolveRange at h
  unfold invokePrsRun resolveRange
  rw [hbase]
  cases hresolved : resolveBase git base with
  | error e =>
      rw [hresolved] at h
      cases h
  | ok resolved =>
      rw [hresolved] at h
      obtain ⟨bare, hbare, hnumbers⟩ := prNumbers_messages h
      dsimp only
      rw [hbare, hnumbers]
      rfl

theorem prBody_files [Culture] {files₁ files₂ : PrFiles} {messages : PrMessages}
    {repoUrl label text : Text}
    (h : AgreeOn (stdoutOf (invokePrsRun git base)) files₁ files₂) :
    invokePrBodyRun git messages files₁ ⟨base, repoUrl, label⟩ text
      = invokePrBodyRun git messages files₂ ⟨base, repoUrl, label⟩ text := by
  unfold invokePrBodyRun
  cases htest : testPrBodyArguments ⟨base, repoUrl, label⟩ with
  | some message => rfl
  | none =>
      unfold prBody
      cases getRepoUrl (lines text) repoUrl with
      | error e => rfl
      | ok repo =>
          dsimp only
          cases hrange : resolveRange git base messages with
          | error e => rfl
          | ok range =>
              rw [stdoutOf_prs (testBase_of_prBody htest) hrange] at h
              dsimp only
              rw [bodyWarnings_agree h]

theorem prs_prints [Culture] (n : Text) (hn : n ∈ stdoutOf (invokePrsRun git base)) :
    IsPrinted n := by
  unfold invokePrsRun at hn
  split at hn
  next => cases hn
  next =>
    cases hrange : resolveRange git base fun _ => none with
    | error e =>
        rw [hrange] at hn
        cases hn
    | ok range =>
        rw [hrange] at hn
        obtain ⟨k, -, rfl⟩ := List.mem_map.mp hn
        exact ⟨format_ne_nil k, format_digits k⟩

/-- The runs of the release bot come to the same with the files it fetched as
with all that GitHub holds. -/
structure SameRuns [Culture] (git : Git) (base : Text) (messages : PrMessages)
    (files : PrFiles) (held : Text → PullCommits) : Prop where
  level : invokeLevelRun git messages base
    = invokeLevelRun git (fun n => some (held n).messages) base
  generate : ∀ today date repoUrl text,
    invokeGenerateRun git today messages ⟨base, date, repoUrl⟩ text
      = invokeGenerateRun git today (fun n => some (held n).messages)
        ⟨base, date, repoUrl⟩ text
  prBody : ∀ repoUrl label text,
    invokePrBodyRun git messages files ⟨base, repoUrl, label⟩ text
      = invokePrBodyRun git (fun n => some (held n).messages)
        (fun n => some (held n).files) ⟨base, repoUrl, label⟩ text

/-- The messages and files of the numbers that `prs` prints, fetched, written
and read back, are all that the release is made of. -/
theorem fetched_messages_suffice [Culture] {asked : List AskedCommits}
    (held : Text → PullCommits)
    (hasked : asked.map AskedCommits.line
      = hereLines (stdoutOf (invokePrsRun git base)))
    (hanswers : ∀ a ∈ asked, readLine a.line ≠ [] →
      CommitsAnswered a (held (readLine a.line)))
    (date : Text → Bool) {path path' : Text} (hpath : path ≠ [])
    (hpath' : path' ≠ []) :
    ∃ file, fetchPrMessages asked = .ok file
      ∧ ((∃ messages, readPrMessages date path (.ok (messagesFile file))
          = .ok messages)
        ↔ ∀ n ∈ stdoutOf (invokePrsRun git base),
          ∀ t ∈ (held n).messages, date t = false)
      ∧ ((∃ files, readPrFiles date path' (.ok (filesFile file)) = .ok files)
        ↔ ∀ n ∈ stdoutOf (invokePrsRun git base),
          ∀ t ∈ (held n).files, date t = false)
      ∧ ∀ messages files,
        readPrMessages date path (.ok (messagesFile file)) = .ok messages →
        readPrFiles date path' (.ok (filesFile file)) = .ok files →
        SameRuns git base messages files held := by
  have hnumbers := numbersOf_hereLines hasked fun n hn => prs_prints n hn
  rw [← hnumbers]
  have hfile : fetchPrMessages asked
      = .ok ((heldFile AskedCommits.line asked held).map fun m =>
        (m.1, strings m.2.messages, strings m.2.files)) :=
    fetchLoop_held AskedCommits.line asked held fetchCommits
      (fun pull => (strings pull.messages, strings pull.files))
      fun a ha hline => fetchCommits_answered (hanswers a ha hline)
  have hmessages : messagesFile
      ((heldFile AskedCommits.line asked held).map fun m =>
        (m.1, strings m.2.messages, strings m.2.files))
      = .obj ((heldFile AskedCommits.line asked held).map fun m =>
        (m.1, strings m.2.messages)) := by
    unfold messagesFile
    rw [List.map_map]
    rfl
  have hfiles : filesFile
      ((heldFile AskedCommits.line asked held).map fun m =>
        (m.1, strings m.2.messages, strings m.2.files))
      = .obj ((heldFile AskedCommits.line asked held).map fun m =>
        (m.1, strings m.2.files)) := by
    unfold filesFile
    rw [List.map_map]
    rfl
  refine ⟨_, hfile, ?_⟩
  rw [hmessages, hfiles]
  obtain ⟨hread, hgives⟩ := readPrMessages_file date hpath
    (heldFile AskedCommits.line asked held)
  obtain ⟨hread', hgives'⟩ := readPrFiles_file date hpath'
    (heldFile AskedCommits.line asked held)
  have hplain := mem_held AskedCommits.line asked held fun pull =>
    ∀ t ∈ pull.messages, date t = false
  have hplain' := mem_held AskedCommits.line asked held fun pull =>
    ∀ t ∈ pull.files, date t = false
  refine ⟨hread.trans hplain, hread'.trans hplain', ?_⟩
  intro messages files hok hok'
  have hagree : AgreeOn (stdoutOf (invokePrsRun git base)) messages
      fun n => some (held n).messages := by
    intro n hn
    rw [hgives messages hok, lookup_held, hnumbers, if_pos hn]
    rfl
  have hagree' : AgreeOn (stdoutOf (invokePrsRun git base)) files
      fun n => some (held n).files := by
    intro n hn
    rw [hgives' files hok', lookup_held, hnumbers, if_pos hn]
    rfl
  constructor
  case level => exact level_same hagree
  case generate => exact fun _ _ _ _ => generate_same hagree
  case prBody =>
    intro repoUrl label text
    rw [prBody_same hagree, prBody_files hagree']

open SoftHyphen

/-- Pages of one item each. -/
def pagesOf (item : Text → Json) (ts : List Text) : Json :=
  .arr (ts.map fun t => .arr [item t])

/-- What GitHub holds for any number here. -/
def heldFixes (n : Text) : PullCommits :=
  ⟨["fix: ".toList ++ n, "feat!: ".toList ++ n], [exportTable]⟩

def askedFixes : List AskedCommits :=
  ["3".toList, "4".toList].map fun n => ⟨n,
    .ok (pagesOf (fun t => .obj [("commit".toList,
      .obj [("message".toList, .str t)])]) (heldFixes n).messages),
    .ok (pagesOf (fun t => .obj [("filename".toList, .str t)])
      (heldFixes n).files)⟩

theorem fetched_messages_suffice_fixes : ∃ file messages files,
    fetchPrMessages askedFixes = .ok file
      ∧ readPrMessages (fun _ => false) "m".toList (.ok (messagesFile file))
        = .ok messages
      ∧ readPrFiles (fun _ => false) "f".toList (.ok (filesFile file))
        = .ok files
      ∧ SameRuns (fixes.gitWith []) [] messages files heldFixes := by
  have hprinted : stdoutOf (invokePrsRun (fixes.gitWith []) [])
      = ["3".toList, "4".toList] := by decide
  have hasked : askedFixes.map AskedCommits.line
      = hereLines (stdoutOf (invokePrsRun (fixes.gitWith []) [])) := by
    rw [hprinted]
    decide
  have hanswers : ∀ a ∈ askedFixes, readLine a.line ≠ [] →
      CommitsAnswered a (heldFixes (readLine a.line)) := by
    intro a ha _
    obtain ⟨n, hn, rfl⟩ := List.mem_map.mp ha
    have hline : readLine n = n := by
      rw [List.mem_cons, List.mem_singleton] at hn
      rcases hn with rfl | rfl <;> decide
    rw [hline]
    exact .pages _ _ _ _ rfl rfl
  obtain ⟨file, hfile, hread, hread', hruns⟩ := fetched_messages_suffice
    heldFixes hasked hanswers (fun _ => false) (show "m".toList ≠ [] by decide)
    (show "f".toList ≠ [] by decide)
  obtain ⟨messages, hmessages⟩ := hread.mpr fun _ _ _ _ => rfl
  obtain ⟨files, hfiles⟩ := hread'.mpr fun _ _ _ _ => rfl
  exact ⟨file, messages, files, hfile, hmessages, hfiles,
    hruns messages files hmessages hfiles⟩

end RestifyCapl.Ci
