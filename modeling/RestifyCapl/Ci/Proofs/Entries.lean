/-
The lines of a generated section. Whatever the commits and the messages
are, the section is its heading and lines that are blank, titles of parts
or entries; each is one line, and the last one is not blank
(`isSection_getSectionLines`). So a section ends where the file goes on.
-/
import RestifyCapl.Ci.Proofs.ChangelogLines
import RestifyCapl.Lib.Split

namespace RestifyCapl.Ci

open Lib

variable {t line : Text}

-- ================================================================ one line

theorem trim_subset (t : Text) : trim t ⊆ t := by
  intro c hc
  exact (List.dropWhile_suffix _).subset ((List.rdropWhile_prefix _ _).subset hc)

theorem not_mem_trim {c : Char} (h : c ∉ t) : c ∉ trim t :=
  fun hc => h (trim_subset t hc)

theorem not_mem_lines (h : line ∈ lines t) : '\n' ∉ line :=
  not_mem_of_mem_splitOn h

/-- What is taken of a text up to a final line feed is taken of the text. -/
theorem subset_of_atEnd {α : Type} {pattern : Text → Option α} {found : α}
    {f : α → Text} (hpattern : ∀ t, pattern t = some found → f found ⊆ t)
    (h : atEnd pattern t = some found) : f found ⊆ t := by
  rcases atEnd_some h with h | ⟨-, h⟩
  · exact hpattern t h
  · exact fun c hc => List.dropLast_subset t (hpattern _ h hc)

theorem reSquash_subset {text digits : Text}
    (h : reSquash t = some (text, digits)) : text ⊆ t := by
  refine subset_of_atEnd (f := Prod.fst) ?_ h
  intro t h
  split at h
  next rest hrev =>
    dsimp only at h
    split at h
    next c more hrest =>
      split at h
      next =>
        cases h
        intro d hd
        have hmem : d ∈ rest.dropWhile isAsciiDigit := by
          have hd := List.mem_cons.mp (List.mem_reverse.mp hd)
          rw [hrest]
          simpa using Or.inr (Or.inr (Or.inr hd))
        have hback : d ∈ t.reverse := by
          rw [hrev]
          exact List.mem_cons_of_mem _ ((List.dropWhile_suffix _).subset hmem)
        exact List.mem_reverse.mp hback
      next => cases h
    next => cases h
  next => cases h

/-- The text of a subject is of the subject. -/
theorem readSubject_subset (subject : Text) :
    (readSubject subject).text ⊆ subject := by
  unfold readSubject
  dsimp only
  split
  next text digits hsquash =>
    exact fun c hc => trim_subset _ (reSquash_subset hsquash hc)
  next => exact trim_subset subject

theorem skipScope_suffix (t : Text) : skipScope t <:+ t := by
  unfold skipScope
  split
  next inner =>
    split
    next after hafter =>
      have hsuffix : ')' :: after <:+ inner := hafter ▸ List.dropWhile_suffix _
      exact ((List.suffix_cons ')' after).trans hsuffix).trans
        (List.suffix_cons '(' inner)
    next => exact List.suffix_rfl
  next => exact List.suffix_rfl

theorem takeBang_suffix (t : Text) : (takeBang t).2 <:+ t := by
  unfold takeBang
  split
  · exact List.suffix_cons _ _
  · exact List.suffix_rfl

theorem reMessageHead_subset {type text : Text} {bang : Bool}
    (h : reMessageHead t = some (type, bang, text)) : text ⊆ t := by
  refine subset_of_atEnd (f := fun found => found.2.2) ?_ h
  intro t h
  dsimp only at h
  split at h
  next c more hrest =>
    split at h
    next =>
      cases h
      have hsuffix := ((takeBang_suffix _).trans (skipScope_suffix _)).trans
        (List.dropWhile_suffix (l := t) (inRange 97 122))
      rw [hrest] at hsuffix
      intro d hd
      exact hsuffix.subset (by simpa using Or.inr (Or.inr (List.mem_cons.mp hd)))
    next => cases h
  next => cases h

theorem reBreakingFooter_subset {footer : Text}
    (h : reBreakingFooter t = some footer) : footer ⊆ t := by
  refine subset_of_atEnd (f := id) ?_ h
  intro t h
  split at h
  next =>
    cases h
    intro d hd
    exact List.mem_of_mem_drop ((List.dropWhile_suffix _).subset hd)
  next => cases h

theorem readHead_line (h : '\n' ∉ t) : '\n' ∉ (readHead t).text := by
  unfold readHead
  split
  next hhead =>
    exact not_mem_trim fun hc => h (reMessageHead_subset hhead hc)
  next => exact h

/-- The text of a message is one line. -/
theorem readMessage_line [Culture] (message : Text) : '\n' ∉ (readMessage message).text := by
  have hlines : ∀ line ∈ lines (replaceCrLf message), '\n' ∉ line :=
    fun line => not_mem_lines
  have hhead : '\n' ∉ trim ((lines (replaceCrLf message)).headD []) := by
    apply not_mem_trim
    cases hls : lines (replaceCrLf message) with
    | nil => exact List.not_mem_nil
    | cons first rest => exact hlines first (hls ▸ List.mem_cons_self)
  unfold readMessage
  dsimp only
  split
  next => exact readHead_line hhead
  next footer hfooter =>
    obtain ⟨line, hmem, hline⟩ := List.exists_of_findSome?_eq_some hfooter
    dsimp only
    split
    next =>
      apply not_mem_trim
      intro hc
      exact hlines line (List.mem_of_mem_tail hmem)
        (reBreakingFooter_subset hline hc)
    next => exact readHead_line hhead

/-- The subject of a row is one line. -/
theorem readRow_line {raw : Text} {e : LogEntry} (h : readRow raw = .ok e)
    (hraw : '\n' ∉ raw) : '\n' ∉ e.subject := by
  unfold readRow at h
  dsimp only at h
  split at h
  next => cases h
  next =>
    cases h
    intro hc
    exact hraw ((List.rdropWhile_prefix _ _).subset (List.mem_of_mem_drop hc))

theorem getRangeLog_line [Culture] {git : Git} {base : Text} {log : RangeLog}
    (h : getRangeLog git base = .ok log) :
    ∀ e ∈ log.entries, '\n' ∉ e.subject := by
  unfold getRangeLog at h
  split at h
  next => cases h
  next =>
    dsimp only at h
    split at h
    next => cases h
    next out _ =>
      split at h
      next => cases h
      next entries hentries =>
        cases h
        intro e he
        obtain ⟨raw, hraw, hread⟩ := mem_of_mapM_ok hentries he
        apply readRow_line hread
        split at hraw
        next => cases hraw
        next => exact not_mem_lines hraw

/-- The texts of a commit that can become entries. -/
def RangeCommit.texts (c : RangeCommit) : List Text :=
  c.subject.text :: c.messages.map Message.text

theorem getRange_line [Culture] {git : Git} {base : Text} {messages : PrMessages}
    {range : Range} (h : getRange git base messages = .ok range) :
    ∀ c ∈ range.commits, ∀ text ∈ c.texts, '\n' ∉ text := by
  unfold getRange at h
  split at h
  next => cases h
  next log hlog =>
    split at h
    next => cases h
    next out _ =>
      cases h
      intro c hc text htext
      obtain ⟨e, he, rfl⟩ := List.mem_map.mp hc
      rw [List.mem_reverse] at he
      rcases List.mem_cons.mp htext with rfl | hmem
      · intro hlf
        exact getRangeLog_line hlog e he (readSubject_subset _ hlf)
      · obtain ⟨m, hm, rfl⟩ := List.mem_map.mp hmem
        unfold rangeCommit messagesOf at hm
        dsimp only at hm
        split at hm
        next =>
          obtain ⟨message, -, rfl⟩ := List.mem_map.mp hm
          exact readMessage_line message
        next => cases hm

-- ================================================================ entries

/-- All entries of all parts have a property. -/
structure Entries.All (p : Text → Prop) (e : Entries) : Prop where
  breaking : ∀ line ∈ e.breaking, p line
  added : ∀ line ∈ e.added, p line
  fixed : ∀ line ∈ e.fixed, p line
  development : ∀ line ∈ e.development, p line

namespace Entries

variable {p : Text → Prop} {e : Entries} {ls : List Text}

theorem All.addBreaking (h : e.All p) (hls : ∀ line ∈ ls, p line) :
    (e.addBreaking ls).All p :=
  { h with breaking := List.forall_mem_append.mpr ⟨h.breaking, hls⟩ }

theorem All.addAdded (h : e.All p) (hls : ∀ line ∈ ls, p line) :
    (e.addAdded ls).All p :=
  { h with added := List.forall_mem_append.mpr ⟨h.added, hls⟩ }

theorem All.addFixed (h : e.All p) (hls : ∀ line ∈ ls, p line) :
    (e.addFixed ls).All p :=
  { h with fixed := List.forall_mem_append.mpr ⟨h.fixed, hls⟩ }

theorem All.addDevelopment (h : e.All p) (hls : ∀ line ∈ ls, p line) :
    (e.addDevelopment ls).All p :=
  { h with development := List.forall_mem_append.mpr ⟨h.development, hls⟩ }

theorem All.warn (h : e.All p) (condition : Bool) (warning : Text) :
    (e.warn condition warning).All p := by
  unfold Entries.warn
  split
  · exact ⟨h.breaking, h.added, h.fixed, h.development⟩
  · exact h

end Entries

/-- A commit adds entries of its own texts. -/
theorem addCommit_all {p : Text → Prop} {repoUrl : Text} {e : Entries}
    {c : RangeCommit} (he : e.All p)
    (hc : ∀ text ∈ c.texts, p (formatEntry text c.subject.number repoUrl)) :
    (addCommit repoUrl e c).All p := by
  have hsubject : ∀ line ∈ [formatEntry c.subject.text c.subject.number repoUrl],
      p line := by
    intro line hline
    rw [List.mem_singleton.mp hline]
    exact hc _ List.mem_cons_self
  have hmessages : ∀ ms ⊆ c.messages, ∀ line ∈ ms.map
      (fun m : Message => formatEntry m.text c.subject.number repoUrl),
      p line := by
    intro ms hms line hline
    obtain ⟨m, hm, rfl⟩ := List.mem_map.mp hline
    exact hc _ (List.mem_cons_of_mem _ (List.mem_map_of_mem (hms hm)))
  have hbreaking := hmessages _ fun m (hm : m ∈ c.messages.filter Message.breaking) =>
    List.mem_of_mem_filter hm
  have htyped : c.messages.filter isTyped ⊆ c.messages :=
    fun m hm => List.mem_of_mem_filter hm
  unfold addCommit
  dsimp only
  split
  next => exact he
  split
  next => exact he.addDevelopment hsubject
  have hmarked := (he.warn (c.subject.number == 0) (noNumber c.subject)).addBreaking
    hbreaking
  split
  next =>
    have hlisted := (hmarked.addFixed (hmessages _ fun m hm =>
      htyped (List.mem_of_mem_filter (p := isFix) hm))).addAdded
        (hmessages _ fun m hm =>
          htyped (List.mem_of_mem_filter (p := fun m => !isFix m) hm))
    split
    next =>
      split
      · exact (hlisted.addFixed hsubject).warn _ _
      · exact (hlisted.addAdded hsubject).warn _ _
    next => exact hlisted
  next =>
    split
    · exact (hmarked.warn _ _).addDevelopment hsubject
    · exact hmarked.warn _ _

theorem getEntries_all {p : Text → Prop} {range : Range} {repoUrl : Text}
    (h : ∀ c ∈ range.commits, ∀ text ∈ c.texts,
      p (formatEntry text c.subject.number repoUrl)) :
    (getEntries range repoUrl).All p := by
  have hrun : ∀ commits : List RangeCommit, (∀ c ∈ commits, ∀ text ∈ c.texts,
      p (formatEntry text c.subject.number repoUrl)) →
      ∀ e : Entries, e.All p → (commits.foldl (addCommit repoUrl) e).All p := by
    intro commits
    induction commits with
    | nil => exact fun _ e he => he
    | cons c commits ih =>
        intro hcommits e he
        obtain ⟨hc, hrest⟩ := List.forall_mem_cons.mp hcommits
        exact ih hrest _ (addCommit_all he hc)
  exact hrun range.commits h _ ⟨nofun, nofun, nofun, nofun⟩

-- ============================================================= the section

/-- How a line of a section begins. -/
inductive BodyLine : Text → Prop where
  | blank : BodyLine []
  | title (rest : Text) : BodyLine ("### ".toList ++ rest)
  | entry (rest : Text) : BodyLine ("- ".toList ++ rest)

theorem BodyLine.neutral {cr : Text} (h : BodyLine line) (hcr : IsCr cr) :
    Neutral (line ++ cr) := by
  cases h with
  | blank => exact hcr.neutral
  | title rest =>
      refine ⟨by simp, ?_⟩
      unfold reHead
      rfl
  | entry rest => exact neutral_of_head (by simp) (by simp)

/-- A heading, then lines of a body; each is one line, and the last is the
heading or an entry. -/
structure IsSection (heading : Text) (sectionLines : List Text) : Prop where
  body : ∃ body, sectionLines = heading :: body ∧ ∀ line ∈ body, BodyLine line
  oneLine : ∀ line ∈ sectionLines, '\n' ∉ line
  last : ∀ line ∈ sectionLines.getLast?,
    line = heading ∨ "- ".toList <+: line

/-- A line of an entry. -/
structure IsEntry (line : Text) : Prop where
  dash : "- ".toList <+: line
  oneLine : '\n' ∉ line

theorem not_mem_format {c : Char} (hc : isAsciiDigit c = false) (n : Nat) :
    c ∉ format n := by
  intro hmem
  rw [format_digits n c hmem] at hc
  cases hc

theorem isEntry_formatEntry {number : Nat} {repoUrl : Text} (ht : '\n' ∉ t)
    (hrepo : '\n' ∉ repoUrl) : IsEntry (formatEntry t number repoUrl) := by
  have hnumber := not_mem_format (c := '\n') (by decide) number
  unfold formatEntry
  dsimp only
  split
  · exact ⟨by simp, by simp [ht, hrepo, hnumber]⟩
  · exact ⟨List.prefix_append _ _, by simp [ht]⟩

theorem bodyLine_of_entry (h : IsEntry line) : BodyLine line := by
  obtain ⟨rest, rfl⟩ := h.dash
  exact .entry rest

/-- What holds of the lines of a part. -/
theorem partLines_spec (title : String) {entries : List Text}
    (htitle : '\n' ∉ title.toList) (h : ∀ line ∈ entries, IsEntry line) :
    (∀ line ∈ partLines title entries, BodyLine line ∧ '\n' ∉ line)
      ∧ ∀ line ∈ (partLines title entries).getLast?, "- ".toList <+: line := by
  unfold partLines
  split
  next => exact ⟨nofun, nofun⟩
  next hne =>
    rw [List.isEmpty_iff] at hne
    constructor
    · intro line hline
      rcases List.mem_append.mp hline with hline | hline
      · have hcases : line = [] ∨ line = "### ".toList ++ title.toList := by
          simpa [or_comm, or_assoc] using hline
        rcases hcases with rfl | rfl
        · exact ⟨.blank, List.not_mem_nil⟩
        · exact ⟨.title _, by simp [htitle]⟩
      · exact ⟨bodyLine_of_entry (h line hline), (h line hline).oneLine⟩
    · intro line hline
      rw [List.getLast?_append_of_ne_nil _ hne] at hline
      exact (h line (List.mem_of_getLast? hline)).dash

theorem getLast_append_cases {a b : List Text} (h : line ∈ (a ++ b).getLast?) :
    line ∈ b.getLast? ∨ line ∈ a.getLast? := by
  rw [List.getLast?_append] at h
  cases hb : b.getLast? with
  | none =>
      rw [hb] at h
      exact Or.inr h
  | some last =>
      rw [hb] at h
      exact Or.inl h

theorem isSection_getSectionLines {e : Entries} {heading : Text}
    (he : e.All IsEntry) (hheading : '\n' ∉ heading) :
    IsSection heading (getSectionLines e heading) := by
  obtain ⟨hbreaking, hbreakingLast⟩ :=
    partLines_spec "Breaking changes" (by decide) he.breaking
  obtain ⟨hadded, haddedLast⟩ :=
    partLines_spec "Added" (by decide) he.added
  obtain ⟨hfixed, hfixedLast⟩ :=
    partLines_spec "Fixed" (by decide) he.fixed
  obtain ⟨hdevelopment, hdevelopmentLast⟩ :=
    partLines_spec "Development" (by decide) he.development
  have hbody : ∀ line ∈ (getSectionLines e heading).tail,
      BodyLine line ∧ '\n' ∉ line :=
    List.forall_mem_append.mpr ⟨List.forall_mem_append.mpr
      ⟨List.forall_mem_append.mpr ⟨hbreaking, hadded⟩, hfixed⟩, hdevelopment⟩
  constructor
  · exact ⟨_, rfl, fun line hline => (hbody line hline).1⟩
  · intro line hline
    rcases List.mem_cons.mp hline with rfl | hline
    · exact hheading
    · exact (hbody line hline).2
  · intro line hline
    have hcons : getSectionLines e heading = [heading]
        ++ (getSectionLines e heading).tail := rfl
    rw [hcons] at hline
    rcases getLast_append_cases hline with hline | hline
    · right
      rcases getLast_append_cases hline with hline | hline
      · exact hdevelopmentLast line hline
      rcases getLast_append_cases hline with hline | hline
      · exact hfixedLast line hline
      rcases getLast_append_cases hline with hline | hline
      · exact haddedLast line hline
      · exact hbreakingLast line hline
    · left
      simpa using hline.symm

/-- What `generate` writes of a range is a section. -/
theorem isSection_readSection [Culture] {git : Git} {base : Text} {messages : PrMessages}
    {repo heading : Text} {sectionLines warnings stderr : List Text}
    (h : readSection git base messages repo heading
      = .ok (sectionLines, warnings, stderr))
    (hrepo : '\n' ∉ repo) (hheading : '\n' ∉ heading) :
    IsSection heading sectionLines := by
  unfold readSection at h
  split at h
  next => cases h
  next range hrange =>
    dsimp only at h
    split at h
    next => cases h
    next =>
      cases h
      apply isSection_getSectionLines _ hheading
      apply getEntries_all
      intro c hc text htext
      exact isEntry_formatEntry (getRange_line hrange c hc text htext) hrepo

/-- The last line of a section is not blank, whatever its ending. -/
theorem IsSection.needsBlank {heading cr : Text} {sectionLines : List Text}
    (h : IsSection heading sectionLines) (hhead : reHead heading = true) :
    needsBlank (sectionLines.map (· ++ cr)) = true := by
  unfold Ci.needsBlank
  rw [List.getLast?_map]
  obtain ⟨body, hlines, -⟩ := h.body
  have hne : sectionLines ≠ [] := by simp [hlines]
  rw [List.getLast?_eq_getLast_of_ne_nil hne]
  rcases h.last _ (List.getLast?_eq_getLast_of_ne_nil hne) with hlast | ⟨rest, hrest⟩
  · obtain ⟨rest, hrest⟩ := reHead_iff.mp hhead
    rw [hlast, ← hrest]
    simp [reBlank_cons (c := '#') (by decide) (by decide) (by decide)]
  · rw [← hrest]
    simp [reBlank_cons (c := '-') (by decide) (by decide) (by decide)]

end RestifyCapl.Ci
