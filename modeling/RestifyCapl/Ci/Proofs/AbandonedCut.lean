/-
An abandoned cut leaves no trace. A run of `generate` for another base,
on the file that an abandoned cut left, writes what it would have written
without it (`abandoned_cut_undone`): the section and the definition of the
abandoned cut are taken out, and a blank line that stays is used again.

It takes four things of the file and the URL (`Undoable`, and that the URL
is one line); without them something of the cut stays, or something else
goes (`traces_left`).
-/
import RestifyCapl.Ci.Proofs.Entries
import RestifyCapl.Ci.Proofs.PendingCut
import RestifyCapl.Ci.Proofs.Sections

namespace RestifyCapl.Ci

variable {text repoUrl shown : Text}

-- ================================================================= the runs

/-- A cut of a release: what a run of `generate` starts from besides the
file and the repository. -/
structure Cut where
  git : Git
  today : Text
  messages : PrMessages
  base : Text
  date : Text
  sha : IsSha base
  realDay : isRealDate today = true

namespace Cut

def generate [Culture] (c : Cut) (repoUrl text : Text) : Except Refusal Generated :=
  invokeGenerateRun c.git c.today c.messages ⟨c.base, c.date, repoUrl⟩ text

def short (c : Cut) : Text := getPrefix c.base 12

def heading (c : Cut) : Text :=
  generatedHeading c.short (if c.date = [] then c.today else c.date)

end Cut

/-- The lines of a file without the sections that the last tag does not
carry. -/
def keptLines (shown text : Text) : List Text :=
  removeSections (hashHeads (lines shown)) (lines text)

theorem keptLines_oneLine {line : Text} (h : line ∈ keptLines shown text) :
    '\n' ∉ line :=
  not_mem_lines (mem_removeSections h)

theorem keptLines_released {line hash : Text} (h : line ∈ keptLines shown text)
    (hhead : reHashHead line = some hash) : hash ∈ hashHeads (lines shown) :=
  hashHeads_removeSections (mem_hashHeads.mpr ⟨line, h, hhead⟩)

/-- No section of the hash is there. -/
def NoSection (short : Text) (kept : List Text) : Prop :=
  ∀ line ∈ kept, ¬ ("## [".toList ++ short ++ "]".toList) <+: line

theorem readChangelog_ok_iff {git : Git} {short repo : Text}
    {kept stderr ignored : List Text}
    (hshown : showLastTag git = .ok (shown, ignored)) :
    readChangelog git (lines text) short repoUrl = .ok (repo, kept, stderr)
      ↔ getRepoUrl (lines text) repoUrl = .ok repo
        ∧ NoSection short kept ∧ kept = keptLines shown text
        ∧ stderr = ignored := by
  have hnone : NoSection short (keptLines shown text)
      ↔ ¬ (keptLines shown text).any
        ("## [".toList ++ short ++ "]".toList).isPrefixOf = true := by
    simp [NoSection]
  unfold readChangelog removeUntaggedSections
  cases getRepoUrl (lines text) repoUrl with
  | error e => simp
  | ok repo' =>
      rw [hshown]
      change (if (keptLines shown text).any
        ("## [".toList ++ short ++ "]".toList).isPrefixOf = true then _
        else Except.ok (repo', keptLines shown text, ignored)) = _ ↔ _
      split
      next hany =>
        constructor
        · exact nofun
        · rintro ⟨-, hno, rfl, -⟩
          exact absurd hany (hnone.mp hno)
      next hany =>
        constructor
        · intro h
          cases h
          exact ⟨rfl, hnone.mpr hany, rfl, rfl⟩
        · rintro ⟨hrepo, -, rfl, rfl⟩
          cases hrepo
          rfl

/-- What a run writes, on the lines that are kept. -/
def Writes [Culture] (c : Cut) (kept : List Text) (repo : Text) (ignored : List Text)
    (g : Generated) : Prop :=
  ∃ sectionLines warnings stderr,
    readSection c.git c.base c.messages repo c.heading
      = .ok (sectionLines, warnings, stderr)
    ∧ g = ⟨getGeneratedText kept c.short c.base repo sectionLines,
        joinLines sectionLines ++ ['\n'], warnings, ignored ++ stderr⟩

/-- When a run ends well. -/
theorem generate_ok_iff [Culture] {c : Cut} {ignored : List Text} {g : Generated}
    (hshown : showLastTag c.git = .ok (shown, ignored)) :
    c.generate repoUrl text = .ok g
      ↔ testArguments ⟨c.base, c.date, repoUrl⟩ = none
        ∧ ∃ repo, getRepoUrl (lines text) repoUrl = .ok repo
          ∧ NoSection c.short (keptLines shown text)
          ∧ Writes c (keptLines shown text) repo ignored g := by
  have hbase : resolveBase c.git c.base = .ok c.base := if_pos (sha_ne_nil c.sha)
  have hread : ∀ repo kept stderr, readChangelog c.git (lines text) c.short repoUrl
        = .ok (repo, kept, stderr)
      ↔ getRepoUrl (lines text) repoUrl = .ok repo ∧ NoSection c.short kept
        ∧ kept = keptLines shown text ∧ stderr = ignored :=
    fun _ _ _ => readChangelog_ok_iff hshown
  unfold Cut.generate invokeGenerateRun
  cases testArguments ⟨c.base, c.date, repoUrl⟩ with
  | some message => simp
  | none =>
      unfold Ci.generate
      dsimp only
      rw [hbase]
      dsimp only
      cases hchangelog : readChangelog c.git (lines text) (getPrefix c.base 12)
          repoUrl with
      | error e =>
          constructor
          · exact nofun
          · rintro ⟨-, repo, hrepo, hno, -⟩
            have := (hread repo _ _).mpr ⟨hrepo, hno, rfl, rfl⟩
            rw [Cut.short, hchangelog] at this
            cases this
      | ok found =>
          obtain ⟨repo, kept, stderr⟩ := found
          obtain ⟨hrepo, hno, rfl, rfl⟩ := (hread repo kept stderr).mp hchangelog
          have hwrites : (∃ repo, getRepoUrl (lines text) repoUrl = .ok repo
                ∧ NoSection c.short (keptLines shown text)
                ∧ Writes c (keptLines shown text) repo stderr g)
              ↔ Writes c (keptLines shown text) repo stderr g := by
            constructor
            · rintro ⟨repo', hrepo', -, hwrites⟩
              rw [hrepo] at hrepo'
              cases hrepo'
              exact hwrites
            · exact fun h => ⟨repo, hrepo, hno, h⟩
          rw [hwrites]
          dsimp only
          unfold Writes Cut.heading generatedHeading Cut.short
          cases readSection c.git c.base c.messages repo
              ("## [".toList ++ getPrefix c.base 12 ++ "] - ".toList
                ++ if c.date = [] then c.today else c.date) with
          | error e => simp
          | ok found =>
              obtain ⟨sectionLines, warnings, stderr'⟩ := found
              simp [eq_comm]

-- ============================================================ the repository

/-- A URL, or one with a line feed after it, as `$` allows. -/
def IsRepoArgument (repo : Text) : Prop :=
  ∃ url, IsRepoUrl url ∧ (repo = url ∨ repo = url ++ ['\n'])

theorem isRepoUrl_of_take {url : Text} (h : takeRepoUrl text = some (url, [])) :
    IsRepoUrl text := by
  obtain ⟨heq, hurl⟩ := takeRepoUrl_some h
  rw [heq, List.append_nil]
  exact hurl

theorem isRepoArgument_of_argument (h : reRepoUrl repoUrl = true) :
    IsRepoArgument repoUrl := by
  obtain ⟨found, hfound⟩ := Option.isSome_iff_exists.mp h
  rcases atEnd_some hfound with h | ⟨hlast, h⟩
  · split at h
    next url htake => exact ⟨repoUrl, isRepoUrl_of_take htake, Or.inl rfl⟩
    next => cases h
  · split at h
    next url htake =>
      exact ⟨repoUrl.dropLast, isRepoUrl_of_take htake,
        Or.inr (List.dropLast_append_getLast? _ hlast).symm⟩
    next => cases h

/-- The repository of a run is one, from the argument or from the file. -/
theorem isRepoArgument_of_getRepoUrl {ls : List Text} {repo base date : Text}
    (h : getRepoUrl ls repoUrl = .ok repo)
    (htest : testArguments ⟨base, date, repoUrl⟩ = none) :
    (repo = repoUrl ∧ IsRepoArgument repo) ∨ IsRepoUrl repo := by
  unfold getRepoUrl at h
  split at h
  next hne =>
    cases h
    refine Or.inl ⟨rfl, isRepoArgument_of_argument ?_⟩
    unfold testArguments at htest
    split at htest
    next => cases htest
    next =>
      split at htest
      next => cases htest
      next hurl =>
        by_contra hbad
        exact hurl ⟨hne, by simpa using hbad⟩
  next =>
    split at h
    next url hfirst =>
      cases h
      obtain ⟨line, -, hdef⟩ := List.exists_of_findSome?_eq_some hfirst
      exact Or.inr (reRepoDef_some hdef).2
    next => cases h

theorem isRepoUrl_of_getRepoUrl {ls : List Text} {repo base date : Text}
    (h : getRepoUrl ls repoUrl = .ok repo)
    (htest : testArguments ⟨base, date, repoUrl⟩ = none)
    (hline : '\n' ∉ repoUrl) : IsRepoUrl repo := by
  rcases isRepoArgument_of_getRepoUrl h htest with
    ⟨rfl, url, hurl, rfl | rfl⟩ | hrepo
  · exact hurl
  · simp at hline
  · exact hrepo

theorem getRepoUrl_of_file {ls : List Text} {repo : Text} (h : repoUrl = []) :
    getRepoUrl ls repoUrl = .ok repo ↔ firstRepoUrl ls = some repo := by
  unfold getRepoUrl
  rw [if_neg (by simpa using h)]
  cases firstRepoUrl ls <;> simp

/-- The date of a heading has the shape of a date. -/
theorem fits_date {c : Cut} (htest : testArguments ⟨c.base, c.date, repoUrl⟩ = none) :
    fits (dateShape isAsciiDigit) (if c.date = [] then c.today else c.date)
      = true := by
  have hreal : ∀ {t}, isRealDate t = true → fits (dateShape isAsciiDigit) t = true := by
    intro t h
    unfold isRealDate at h
    simp only [Bool.and_eq_true] at h
    exact h.1.1.1
  split
  next => exact hreal c.realDay
  next hdate =>
    unfold testArguments at htest
    split at htest
    next => cases htest
    next =>
      split at htest
      next => cases htest
      next =>
        split at htest
        next => cases htest
        next hbad =>
          apply hreal
          by_contra hnot
          exact hbad ⟨hdate, by simp [hnot]⟩

-- ========================================================== what is written

/-- The lines of a generated file. -/
def Cut.written [Culture] (c : Cut) (kept : List Text) (repo : Text)
    (sectionLines : List Text) : List Text :=
  render (insertionOf kept) sectionLines (linkDefinition c.short c.base repo)

variable {before after kept fin sectionLines : List Text}
variable {cr ending definition line repo heading : Text}

theorem mem_render [Culture] (hshape : Shape before after cr kept fin ending)
    (hlast : needsBlank (sectionLines.map (· ++ cr)) = true) :
    line ∈ render ⟨before, cr, after⟩ sectionLines definition
      ↔ line ∈ before ∨ (∃ l ∈ sectionLines, l ++ cr = line) ∨ line = cr
        ∨ line ∈ remains cr after ∨ line = definition ++ ending := by
  rw [hshape.render _ _ hlast, hshape.remains]
  simp only [List.mem_append, List.mem_cons, List.mem_map, or_assoc]
  rw [or_comm (a := line = definition ++ ending)]

theorem mem_map_section {body : List Text} (hlines : sectionLines = heading :: body)
    (h : line ∈ sectionLines.map (· ++ cr)) :
    line = heading ++ cr ∨ ∃ l ∈ body, line = l ++ cr := by
  rw [hlines, List.map_cons] at h
  rcases List.mem_cons.mp h with rfl | h
  · exact Or.inl rfl
  · obtain ⟨l, hl, rfl⟩ := List.mem_map.mp h
    exact Or.inr ⟨l, hl, rfl⟩

theorem isShort_short (c : Cut) : IsShort c.short := isShort_getPrefix c.sha

theorem heading_line {short date : Text} (hshort : IsShort short)
    (hdate : fits (dateShape isAsciiDigit) date = true) :
    '\n' ∉ generatedHeading short date := by
  have hlf : '\n' ∉ short := fun h => absurd (hshort.2 _ h) (by decide)
  simp [generatedHeading, hlf, not_mem_date hdate (c := '\n') (by decide) (by decide)]

section Culture

variable [Culture]

/-- What the file of a cut has to be for the cut to be undone. No line
begins as its definition would; a last line that gets a blank one after it
gets one with a carriage return; and where the URL comes from the file, the
definitions before the section do not name another one first. -/
structure Undoable (shown text short repoUrl : Text) : Prop where
  noDefinition : ∀ line ∈ keptLines shown text, reDefHash line ≠ some short
  keepsEnd : KeepsEnd (insertionOf (keptLines shown text)).cr
    (insertionOf (keptLines shown text)).after
  sameUrl : repoUrl = [] → ∀ url,
    firstRepoUrl (insertionOf (keptLines shown text)).before = some url →
      firstRepoUrl (lines text) = some url

/-- A section as a run writes it, in a file that is cut at a place. -/
structure WrittenAt (short base repo heading cr : Text)
    (sectionLines before after kept fin : List Text) (ending : Text) :
    Prop where
  shape : Shape before after cr kept fin ending
  isCr : IsCr cr
  isShort : IsShort short
  isSha : IsSha base
  isRepoUrl : IsRepoUrl repo
  isHeading : ∀ cr, IsCr cr → reHashHead (heading ++ cr) = some short
  isSection : IsSection heading sectionLines

namespace WrittenAt

variable {short base : Text}

theorem needsBlank (w : WrittenAt short base repo heading cr sectionLines before
    after kept fin ending) : needsBlank (sectionLines.map (· ++ cr)) = true := by
  have hhead := reHead_of_hash (w.isHeading [] (Or.inl rfl))
  rw [List.append_nil] at hhead
  exact w.isSection.needsBlank hhead

theorem definition_facts (w : WrittenAt short base repo heading cr sectionLines
    before after kept fin ending) (cr' : Text) :
    reDefHash (linkDefinition short base repo ++ cr') = some short
      ∧ reLinkDef (linkDefinition short base repo ++ cr') = true :=
  ⟨reDefHash_linkDefinition w.isShort base repo cr',
    reLinkDef_linkDefinition w.isShort w.isRepoUrl.startsClean base cr'⟩

/-- The written text is read as the lines that were written. -/
theorem lines_render (w : WrittenAt short base repo heading cr sectionLines before
    after kept fin ending) (hbefore : ∀ l ∈ before, '\n' ∉ l)
    (hremains : ∀ l ∈ remains cr after, '\n' ∉ l) :
    lines (joinLines (render ⟨before, cr, after⟩ sectionLines
        (linkDefinition short base repo)))
      = render ⟨before, cr, after⟩ sectionLines (linkDefinition short base repo) := by
  have hshort : '\n' ∉ short := fun h => absurd (w.isShort.2 _ h) (by decide)
  have hbase := not_mem_of_isSha w.isSha (c := '\n') (by decide)
  apply List.splitOn_intercalate
  · intro line hline
    rcases (mem_render w.shape w.needsBlank).mp hline with
      hl | ⟨l, hl, rfl⟩ | rfl | hl | rfl
    · exact hbefore line hl
    · simp [w.isSection.oneLine l hl, w.isCr.oneLine]
    · exact w.isCr.oneLine
    · exact hremains line hl
    · simp [linkDefinition, hshort, hbase, w.isRepoUrl.oneLine, w.shape.ending.oneLine]
  · intro hnil
    have hmem : cr ∈ render ⟨before, cr, after⟩ sectionLines
        (linkDefinition short base repo) :=
      (mem_render w.shape w.needsBlank).mpr (Or.inr (Or.inr (Or.inl rfl)))
    rw [hnil] at hmem
    cases hmem

/-- Section and definition are all that a later run takes out. -/
theorem removeSections_render (w : WrittenAt short base repo heading cr sectionLines
    before after kept fin ending) {released : List Text} (hnew : short ∉ released)
    (hheads : ∀ l ∈ before ++ remains cr after, ∀ hash,
      reHashHead l = some hash → hash ∈ released)
    (hdefs : ∀ l ∈ before ++ remains cr after, reDefHash l ≠ some short) :
    removeSections released (render ⟨before, cr, after⟩ sectionLines
        (linkDefinition short base repo))
      = before ++ remains cr after := by
  obtain ⟨body, hlines, hbody⟩ := w.isSection.body
  have hneutral : ∀ l ∈ body, Neutral (l ++ cr) :=
    fun l hl => (hbody l hl).neutral w.isCr
  have hdefinition := w.definition_facts
  have hmem : short ∈ hashHeads (render ⟨before, cr, after⟩ sectionLines
      (linkDefinition short base repo)) := by
    refine mem_hashHeads.mpr ⟨heading ++ cr, ?_, w.isHeading cr w.isCr⟩
    refine (mem_render w.shape w.needsBlank).mpr (Or.inr (Or.inl ⟨heading, ?_, rfl⟩))
    rw [hlines]
    exact List.mem_cons_self
  have hothers : ∀ other ∈ hashHeads (render ⟨before, cr, after⟩ sectionLines
      (linkDefinition short base repo)), other = short ∨ other ∈ released := by
    intro other hother
    obtain ⟨line, hline, hhead⟩ := mem_hashHeads.mp hother
    rcases (mem_render w.shape w.needsBlank).mp hline with
      hl | ⟨l, hl, rfl⟩ | rfl | hl | rfl
    · exact Or.inr (hheads line (List.mem_append_left _ hl) other hhead)
    · rw [hlines] at hl
      rcases List.mem_cons.mp hl with rfl | hl
      · rw [w.isHeading cr w.isCr] at hhead
        cases hhead
        exact Or.inl rfl
      · rw [(hneutral l hl).reHashHead] at hhead
        cases hhead
    · rw [w.isCr.neutral.reHashHead] at hhead
      cases hhead
    · exact Or.inr (hheads line (List.mem_append_right _ hl) other hhead)
    · have := not_linkDef_of_head (reHead_of_hash hhead)
      rw [(hdefinition ending).2] at this
      cases this
  obtain ⟨dropped, hdropped, hremove⟩ := removeSections_one hmem hnew hothers
  have hkeeps : ∀ l ∈ before ++ remains cr after, Keeps dropped l := by
    intro l hl
    constructor
    · intro hash hhead hmemDropped
      rw [(hdropped hash).mp hmemDropped] at hhead
      exact hnew (hheads l hl short hhead)
    · intro hash hdef hmemDropped
      rw [(hdropped hash).mp hmemDropped] at hdef
      exact hdefs l hl hdef
  rw [hremove]
  apply keepLines_render w.shape w.isCr ((hdropped short).mpr rfl)
    (fun l hl => hkeeps l (List.mem_append_left _ hl))
    (fun l hl => hkeeps l (List.mem_append_right _ hl))
    (by rw [hlines, List.map_cons]) w.needsBlank (w.isHeading cr w.isCr) _ hdefinition
  intro line hline
  obtain ⟨l, hl, rfl⟩ := List.mem_map.mp hline
  exact (hneutral l hl).endsSection

/-- The URL that a later run finds: before the section, or of its
definition. -/
theorem firstRepoUrl_render (w : WrittenAt short base repo heading cr sectionLines
    before after kept fin ending) :
    firstRepoUrl (render ⟨before, cr, after⟩ sectionLines
        (linkDefinition short base repo))
      = some ((firstRepoUrl before).getD repo) := by
  obtain ⟨body, hlines, hbody⟩ := w.isSection.body
  have hnoDef : ∀ line ∈ sectionLines.map (· ++ cr) ++ cr :: kept,
      reRepoDef line = none := by
    intro line hline
    apply reRepoDef_none
    rcases List.mem_append.mp hline with hline | hline
    · rcases mem_map_section hlines hline with rfl | ⟨l, hl, rfl⟩
      · exact not_linkDef_of_head (reHead_of_hash (w.isHeading cr w.isCr))
      · exact (endsSection_false.mp ((hbody l hl).neutral w.isCr).endsSection).2
    · rcases List.mem_cons.mp hline with rfl | hline
      · exact (endsSection_false.mp w.isCr.neutral.endsSection).2
      · exact w.shape.noDefinition line hline
  have hshape : render ⟨before, cr, after⟩ sectionLines
        (linkDefinition short base repo)
      = before ++ ((sectionLines.map (· ++ cr) ++ cr :: kept)
        ++ (linkDefinition short base repo ++ ending) :: fin) := by
    rw [w.shape.render _ _ w.needsBlank]
    simp
  unfold firstRepoUrl
  rw [hshape, List.findSome?_append, List.findSome?_append,
    List.findSome?_eq_none_iff.mpr hnoDef, List.findSome?_cons,
    reRepoDef_linkDefinition w.isShort w.isSha w.isRepoUrl w.isRepoUrl.oneLine
      w.shape.ending]
  cases before.findSome? reRepoDef <;> rfl

/-- The repository of a section is that of the file it is written to. -/
theorem getRepoUrl_render (w : WrittenAt short base repo heading cr sectionLines
    before after kept fin ending) {ls : List Text}
    (hrepo : getRepoUrl ls repoUrl = .ok repo)
    (hurl : repoUrl = [] → ∀ url, firstRepoUrl before = some url →
      firstRepoUrl ls = some url) :
    getRepoUrl (render ⟨before, cr, after⟩ sectionLines
      (linkDefinition short base repo)) repoUrl = .ok repo := by
  by_cases hempty : repoUrl = []
  · rw [getRepoUrl_of_file hempty] at hrepo ⊢
    rw [w.firstRepoUrl_render]
    cases hbefore : firstRepoUrl before with
    | none => rfl
    | some url =>
        have hsame := hurl hempty url hbefore
        rw [hrepo] at hsame
        rw [← hsame]
        rfl
  · unfold getRepoUrl at hrepo ⊢
    rw [if_pos hempty] at hrepo ⊢
    exact hrepo

end WrittenAt

-- ================================================================= the trace

/-- The section of a run, at the place of the lines that are kept. -/
theorem writtenAt {c : Cut} {warnings stderr : List Text}
    (htest : testArguments ⟨c.base, c.date, repoUrl⟩ = none)
    (hrepo : IsRepoUrl repo)
    (hsection : readSection c.git c.base c.messages repo c.heading
      = .ok (sectionLines, warnings, stderr))
    (hshape : Shape before after cr kept fin ending) (hcr : IsCr cr) :
    WrittenAt c.short c.base repo c.heading cr sectionLines before after kept fin
      ending where
  shape := hshape
  isCr := hcr
  isShort := isShort_short c
  isSha := c.sha
  isRepoUrl := hrepo
  isHeading _ hcr := reHashHead_heading (isShort_short c) (fits_date htest) hcr
  isSection := isSection_readSection hsection hrepo.oneLine
    (heading_line (isShort_short c) (fits_date htest))

/-- After an abandoned cut a run writes what it would have written without
it. -/
def LeavesNoTrace (c₁ c₂ : Cut) (repoUrl text : Text) : Prop :=
  ∀ g₁ g₂, c₁.generate repoUrl text = .ok g₁ → c₂.generate repoUrl text = .ok g₂ →
    ∃ g, c₂.generate repoUrl g₁.output = .ok g ∧ g.output = g₂.output

/-- A cut is undone where the file and the URL allow it. -/
theorem abandoned_cut_undone {c₁ c₂ : Cut} {stderr₁ stderr₂ : List Text}
    (hshown₁ : showLastTag c₁.git = .ok (shown, stderr₁))
    (hshown₂ : showLastTag c₂.git = .ok (shown, stderr₂))
    (hnew : c₁.short ∉ hashHeads (lines shown)) (hline : '\n' ∉ repoUrl)
    (hundo : Undoable shown text c₁.short repoUrl) :
    LeavesNoTrace c₁ c₂ repoUrl text := by
  intro g₁ g₂ hrun₁ hrun₂
  refine ⟨g₂, ?_, rfl⟩
  obtain ⟨htest₁, repo, hrepo₁, hno₁, section₁, warnings₁, rest₁, hsection₁, rfl⟩ :=
    (generate_ok_iff hshown₁).mp hrun₁
  obtain ⟨htest₂, repo', hrepo₂, hno₂, section₂, warnings₂, rest₂, hsection₂, rfl⟩ :=
    (generate_ok_iff hshown₂).mp hrun₂
  rw [hrepo₁] at hrepo₂
  cases hrepo₂
  have hrepo := isRepoUrl_of_getRepoUrl hrepo₁ htest₁ hline
  obtain ⟨pre, after, cr, hsplit, hplace, hcr, hcrEq, hinsertion⟩ :=
    exists_insertion (keptLines shown text)
  obtain ⟨hnoDef, hend, hurl⟩ := hundo
  rw [hinsertion] at hend hurl
  obtain ⟨kept, fin, ending, hshape, hshapeAgain⟩ : ∃ kept fin ending,
      Shape (withBlank pre cr) after cr kept fin ending
        ∧ Shape (withBlank pre cr) (remains cr after) cr kept fin ending :=
    shape_remains hplace hcr hend
  have w₁ := writtenAt htest₁ hrepo hsection₁ hshape hcr
  have w₂ := writtenAt htest₂ hrepo hsection₂ hshape hcr
  -- every line around the section was kept, or is a blank one
  have hlines : ∀ l ∈ withBlank pre cr ++ remains cr after,
      l ∈ keptLines shown text ∨ IsCr l := by
    intro l hl
    rw [hsplit]
    exact mem_around hcr hl
  have honeLine : ∀ l ∈ withBlank pre cr ++ remains cr after, '\n' ∉ l := by
    intro l hl
    rcases hlines l hl with hl | hl
    · exact keptLines_oneLine hl
    · exact hl.oneLine
  have hread : lines (getGeneratedText (keptLines shown text) c₁.short c₁.base repo
      section₁) = render ⟨withBlank pre cr, cr, after⟩ section₁
        (linkDefinition c₁.short c₁.base repo) := by
    unfold getGeneratedText
    rw [hinsertion]
    exact w₁.lines_render (fun l hl => honeLine l (List.mem_append_left _ hl))
      fun l hl => honeLine l (List.mem_append_right _ hl)
  have hremoved : keptLines shown (getGeneratedText (keptLines shown text) c₁.short
      c₁.base repo section₁) = withBlank pre cr ++ remains cr after := by
    unfold keptLines at hread ⊢
    rw [hread]
    apply w₁.removeSections_render hnew
    · intro l hl hash hhash
      rcases hlines l hl with hl | hl
      · exact keptLines_released hl hhash
      · rw [hl.neutral.reHashHead] at hhash
        cases hhash
    · intro l hl
      rcases hlines l hl with hl | hl
      · exact hnoDef l hl
      · rw [hl.neutral.reDefHash]
        exact nofun
  have hrepoAgain : getRepoUrl (lines (getGeneratedText (keptLines shown text)
      c₁.short c₁.base repo section₁)) repoUrl = .ok repo := by
    rw [hread]
    exact w₁.getRepoUrl_render hrepo₁ hurl
  rw [generate_ok_iff hshown₂]
  refine ⟨htest₂, repo, hrepoAgain, ?_, section₂, warnings₂, rest₂, hsection₂, ?_⟩
  · rw [hremoved]
    intro l hl
    rcases hlines l hl with hl | hl
    · exact hno₂ l hl
    · rintro ⟨rest, rfl⟩
      rcases hl with hl | hl <;> cases hl
  · rw [hremoved]
    unfold getGeneratedText
    rw [hinsertion, insertionOf_remains hplace hcrEq,
      hshape.render _ _ w₂.needsBlank, hshapeAgain.render _ _ w₂.needsBlank]

end Culture

-- ==================================================================== files

open SoftHyphen

/-- A git with a CHANGELOG.md at its tags. -/
def Repository.gitWith (repo : Repository) (changelog : Text) : Git := fun args =>
  if args ∈ repo.tags.map (fun tag => showChangelog tag.name) then success changelog
  else if args = listBefore then
    match firstParents repo.commits (some cutOffSha) with
    | [] => unknownRevision
    | chain => success (printLines (chain.map Commit.sha))
  else repo.git args

theorem isSha_cutOffSha : IsSha cutOffSha := by decide

/-- Two fixes after `v1.0.0`. -/
def fixes : Repository where
  commits := [⟨shaOf 'c', [shaOf 'b'], shaOf 'd', "fix/date (#4)".toList⟩,
    ⟨shaOf 'b', [cutOffSha], shaOf 'e', "fix/clock (#3)".toList⟩,
    ⟨cutOffSha, [], shaOf 'f', "first".toList⟩]
  tip := shaOf 'c'
  tags := [⟨"v1.0.0".toList, cutOffSha⟩]
  distinct := by decide
  shas := by
    simp only [List.forall_mem_cons, List.not_mem_nil, false_implies,
      implies_true, and_true]
    exact ⟨isSha_shaOf rfl, isSha_shaOf rfl, isSha_cutOffSha⟩
  parentsLater := by simp [ParentsLater]
  oneLine := by simp
  tipHeld := List.mem_cons_self
  tagsDistinct := List.nodup_singleton _
  tagsHeld := by simp
  tagWords := by decide

/-- A cut over a commit of the repository. -/
def cutAt (changelog : Text) (digit : Char) (h : isHex digit = true) : Cut where
  git := fixes.gitWith changelog
  today := "2024-05-01".toList
  messages := fun _ => none
  base := shaOf digit
  date := []
  sha := isSha_shaOf h
  realDay := by decide

def firstCut (changelog : Text) : Cut := cutAt changelog 'b' rfl

def secondCut (changelog : Text) : Cut := cutAt changelog 'c' rfl

def url : Text := "https://github.com/o/r".toList

/-- A definition of a commit. -/
def definitionOf (digit : Char) (repo : String) : Text :=
  linkDefinition (getPrefix (shaOf digit) 12) (shaOf digit)
    ("https://github.com/".toList ++ repo.toList)

/-- A heading of a commit. -/
def headingOf (digit : Char) : Text :=
  generatedHeading (getPrefix (shaOf digit) 12) "2024-04-01".toList

/-- Does the run differ? -/
def leavesTrace (c₁ c₂ : Cut) (repoUrl text : Text) : Bool :=
  match c₁.generate repoUrl text, c₂.generate repoUrl text with
  | .ok g₁, .ok g₂ =>
      match c₂.generate repoUrl g₁.output with
      | .ok g => g.output != g₂.output
      | .error _ => true
  | _, _ => false

theorem trace_of_leavesTrace {c₁ c₂ : Cut}
    (h : leavesTrace c₁ c₂ repoUrl text = true) :
    ¬ LeavesNoTrace c₁ c₂ repoUrl text := by
  intro hnone
  unfold leavesTrace at h
  split at h
  next g₁ g₂ hrun₁ hrun₂ =>
    obtain ⟨g, hrun, houtput⟩ := hnone g₁ g₂ hrun₁ hrun₂
    rw [hrun] at h
    simp [houtput] at h
  next => cases h

/-- A file with a released section. -/
def releasedFile : Text :=
  joinLines ["# Changelog".toList, [], headingOf 'a', [], "- first".toList, [],
    definitionOf 'a' "o/r", []]

theorem undoable_releasedFile :
    Undoable releasedFile releasedFile (firstCut releasedFile).short [] where
  noDefinition := by decide
  keepsEnd := by
    unfold KeepsEnd
    decide
  sameUrl := by
    intro _ url h
    have hnone : firstRepoUrl
        (insertionOf (keptLines releasedFile releasedFile)).before = none := by
      decide
    rw [hnone] at h
    cases h

theorem abandoned_cut_undone_released :
    ((firstCut releasedFile).generate [] releasedFile).toBool = true
      ∧ ((secondCut releasedFile).generate [] releasedFile).toBool = true
      ∧ LeavesNoTrace (firstCut releasedFile) (secondCut releasedFile) []
        releasedFile :=
  ⟨by decide, by decide,
    abandoned_cut_undone
      (show showLastTag (firstCut releasedFile).git = .ok (releasedFile, []) by rfl)
      (show showLastTag (secondCut releasedFile).git = .ok (releasedFile, []) by rfl)
      (by decide) (by decide) undoable_releasedFile⟩

/-- A definition of the cut is there before the cut. -/
def strayFile : Text := joinLines [definitionOf 'b' "o/r", []]

/-- A section up to the end, without a line feed. -/
def openFile : Text := joinLines ["## [Unreleased]".toList, "- first".toList]

/-- The definition that names the repository goes with its section, and
another repository is named before the next one. -/
def movedFile : Text :=
  joinLines [headingOf 'd', definitionOf 'd' "o/x", definitionOf 'a' "o/r",
    "## [old]".toList, []]

/-- With nothing released, each of these files keeps a trace of the cut, and
so does a URL that ends with a line feed. -/
theorem traces_left :
    (∀ c ∈ [firstCut [], secondCut []], showLastTag c.git = .ok ([], [])
        ∧ c.short ∉ hashHeads (lines []))
      ∧ ¬ LeavesNoTrace (firstCut []) (secondCut []) url strayFile
      ∧ ¬ LeavesNoTrace (firstCut []) (secondCut []) url openFile
      ∧ ¬ LeavesNoTrace (firstCut []) (secondCut []) [] movedFile
      ∧ ¬ LeavesNoTrace (firstCut []) (secondCut []) (url ++ ['\n']) [] := by
  refine ⟨?_, trace_of_leavesTrace (by decide),
    trace_of_leavesTrace (by decide +kernel),
    trace_of_leavesTrace (by decide),
    trace_of_leavesTrace (by decide)⟩
  intro c hc
  have hcases : c = firstCut [] ∨ c = secondCut [] := by simpa using hc
  rcases hcases with rfl | rfl
  · exact ⟨rfl, by decide⟩
  · exact ⟨rfl, by decide⟩

end RestifyCapl.Ci
