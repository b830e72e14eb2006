/-
Relabelling is rebuilding, where the texts of a description hold no mark of
their own (`relabelled_is_rebuilt`): `body-version` puts in its first line
what `pr-body` would have put there with the label. Where a message, a
subject or a warning holds a mark, `body-version` refuses, as it is meant to
(`marked_message_refused`).

What is between the marks of a line does not matter to how they are found
(`Marks.read`): a preview is `Apart` from both marks.
-/
import RestifyCapl.Ci.Proofs.Published
import RestifyCapl.Lib.Occurrences

namespace RestifyCapl.Ci

open Lib

variable {t line opening closing preview : Text} {ls before after : List Text}

-- ================================================================ the marks

/-- A text without angle brackets and with a parenthesis. -/
structure Plain (t : Text) : Prop where
  noOpening : '<' ∉ t
  noClosing : '>' ∉ t
  parenthesis : ')' ∈ t
  oneLine : '\n' ∉ t

/-- A text without angle brackets is apart from a mark, where it has a
character that the mark has not. -/
theorem apart_of_brackets {mark : Text} {c : Char} (hhead : mark.head? = some '<')
    (hlast : mark.getLast? = some '>') (hopening : '<' ∉ t) (hclosing : '>' ∉ t)
    (hc : c ∈ t) (hstranger : c ∉ mark) : Apart mark t where
  first := by
    intro d hd
    rw [hhead] at hd
    cases hd
    exact hopening
  last := by
    intro d hd
    rw [hlast] at hd
    cases hd
    exact hclosing
  stranger := ⟨c, hc, hstranger⟩

theorem Plain.apart_open (h : Plain t) : Apart openMark t :=
  apart_of_brackets rfl rfl h.noOpening h.noClosing h.parenthesis (by decide)

theorem Plain.apart_close (h : Plain t) : Apart closeMark t :=
  apart_of_brackets rfl rfl h.noOpening h.noClosing h.parenthesis (by decide)

theorem openMark_ne_nil : openMark ≠ [] := by decide

theorem closeMark_ne_nil : closeMark ≠ [] := by decide

theorem splitCount_eq (s t : Text) : splitCount s t = occurrences s t + 1 := rfl

theorem contains_iff (s t : Text) : contains s t = true ↔ 0 < occurrences s t := by
  unfold contains occurrences
  rw [List.countP_pos_iff, List.any_eq_true]

/-- A line without a mark. -/
theorem isMarked_false : isMarked t = false
    ↔ occurrences openMark t = 0 ∧ occurrences closeMark t = 0 := by
  unfold isMarked
  rw [Bool.or_eq_false_iff, ← Bool.not_eq_true, ← Bool.not_eq_true, contains_iff,
    contains_iff, Nat.pos_iff_ne_zero, Nat.pos_iff_ne_zero, not_not, not_not]

/-- What stands before the preview of a line and after it: the marks are
there, and once each. -/
structure Marks (opening closing : Text) : Prop where
  opens : openMark <:+ opening
  closes : closeMark <+: closing
  openOnce : occurrences openMark opening + occurrences openMark closing = 1
  closeOnce : occurrences closeMark opening + occurrences closeMark closing = 1

-- ================================================================== reading

theorem afterFirst_some {s after : Text} (h : afterFirst s t = some after) :
    ∃ between, t = between ++ (s ++ after) := by
  induction t with
  | nil => cases h
  | cons c t ih =>
      unfold afterFirst at h
      split at h
      next hstart =>
        cases h
        obtain ⟨rest, hrest⟩ := List.isPrefixOf_iff_prefix.mp hstart
        refine ⟨[], ?_⟩
        rw [← hrest, List.drop_left]
        rfl
      next =>
        obtain ⟨between, ht⟩ := ih h
        exact ⟨c :: between, by rw [ht]; rfl⟩

/-- The last opening mark with a closing one after it. -/
theorem reVersionMarks_some (h : reVersionMarks t = some (opening, closing)) :
    ∃ between, t = opening ++ (between ++ closing) ∧ openMark <:+ opening
      ∧ closeMark <+: closing := by
  induction t generalizing opening with
  | nil => cases h
  | cons c t ih =>
      unfold reVersionMarks at h
      split at h
      next opening' closing' hrest =>
        cases h
        obtain ⟨between, ht, hopen, hclose⟩ := ih hrest
        refine ⟨between, ?_, hopen.trans (List.suffix_cons c opening'), hclose⟩
        rw [ht]
        rfl
      next =>
        split at h
        next hopen =>
          obtain ⟨after, hafter, hsome⟩ := Option.map_eq_some_iff.mp h
          cases hsome
          obtain ⟨rest, hrest⟩ := List.isPrefixOf_iff_prefix.mp hopen
          rw [← hrest, List.drop_left] at hafter
          obtain ⟨between, hbetween⟩ := afterFirst_some hafter
          refine ⟨between, ?_, List.suffix_rfl, List.prefix_append _ _⟩
          rw [← hrest, hbetween]
        next => cases h

/-- Nothing of a plain text begins a closing mark. -/
theorem afterFirst_plain {rest : Text} (h : '<' ∉ t) :
    afterFirst closeMark (t ++ (closeMark ++ rest)) = some rest := by
  induction t with
  | nil => rfl
  | cons c t ih =>
      rw [List.mem_cons, not_or] at h
      rw [List.cons_append, afterFirst, if_neg, ih h.2]
      rw [List.isPrefixOf_iff_prefix]
      intro hstart
      exact h.1 (List.cons_prefix_cons.mp hstart).1

theorem reVersionMarks_none (h : occurrences openMark t = 0) :
    reVersionMarks t = none := by
  induction t with
  | nil => rfl
  | cons c t ih =>
      rw [occurrences_cons] at h
      unfold reVersionMarks
      rw [ih (by omega)]
      dsimp only
      rw [if_neg]
      intro hstart
      rw [if_pos hstart] at h
      omega

theorem reVersionMarks_append {rest : Text}
    (h : reVersionMarks rest = some (opening, closing)) (t : Text) :
    reVersionMarks (t ++ rest) = some (t ++ opening, closing) := by
  induction t with
  | nil => exact h
  | cons c t ih =>
      rw [List.cons_append, reVersionMarks, ih]
      rfl

/-- The marks around a plain text, where no other opening mark is. -/
theorem reVersionMarks_plain {rest : Text} (h : '<' ∉ t)
    (honce : occurrences openMark (openMark ++ (t ++ (closeMark ++ rest))) ≤ 1) :
    reVersionMarks (openMark ++ (t ++ (closeMark ++ rest)))
      = some (openMark, closeMark ++ rest) := by
  have hcons : openMark ++ (t ++ (closeMark ++ rest))
      = '<' :: (openMark.tail ++ (t ++ (closeMark ++ rest))) := rfl
  have hstart : openMark.isPrefixOf (openMark ++ (t ++ (closeMark ++ rest))) = true :=
    List.isPrefixOf_iff_prefix.mpr (List.prefix_append _ _)
  rw [hcons] at honce
  rw [occurrences_cons, ← hcons, if_pos hstart] at honce
  rw [hcons, reVersionMarks, reVersionMarks_none (by omega), ← hcons]
  dsimp only
  rw [if_pos hstart, List.drop_left, afterFirst_plain h]
  rfl

/-- The marks of a line that holds each of them once. -/
theorem marks_of_read (h : reVersionMarks line = some (opening, closing))
    (hopen : splitCount openMark line = 2) (hclose : splitCount closeMark line = 2) :
    Marks opening closing ∧ ∃ between, line = opening ++ (between ++ closing) := by
  obtain ⟨between, hline, hopens, hcloses⟩ := reVersionMarks_some h
  have hatLeast : ∀ {s : Text}, s ≠ [] → occurrences s opening
      + occurrences s closing ≤ occurrences s line := by
    intro s hs
    have houter := occurrences_add_le hs opening (between ++ closing)
    have hinner := occurrences_add_le hs between closing
    rw [hline]
    omega
  have hopenThere : 0 < occurrences openMark opening :=
    occurrences_pos_iff.mpr hopens.isInfix
  have hcloseThere : 0 < occurrences closeMark closing :=
    occurrences_pos_iff.mpr hcloses.isInfix
  have hopenMost := hatLeast openMark_ne_nil
  have hcloseMost := hatLeast closeMark_ne_nil
  rw [splitCount_eq] at hopen hclose
  exact ⟨⟨hopens, hcloses, by omega, by omega⟩, between, hline⟩

namespace Marks

/-- Any preview may stand between the marks. -/
theorem read (h : Marks opening closing) (hplain : Plain preview) :
    reVersionMarks (opening ++ (preview ++ closing)) = some (opening, closing)
      ∧ splitCount openMark (opening ++ (preview ++ closing)) = 2
      ∧ splitCount closeMark (opening ++ (preview ++ closing)) = 2 := by
  have hopen : occurrences openMark (opening ++ (preview ++ closing)) = 1 := by
    rw [occurrences_around openMark_ne_nil hplain.apart_open, h.openOnce]
  have hclose : occurrences closeMark (opening ++ (preview ++ closing)) = 1 := by
    rw [occurrences_around closeMark_ne_nil hplain.apart_close, h.closeOnce]
  refine ⟨?_, by rw [splitCount_eq, hopen], by rw [splitCount_eq, hclose]⟩
  obtain ⟨front, rfl⟩ := h.opens
  obtain ⟨back, rfl⟩ := h.closes
  rw [List.append_assoc] at hopen ⊢
  apply reVersionMarks_append
  apply reVersionMarks_plain hplain.noOpening
  have hfront := occurrences_add_le openMark_ne_nil front
    (openMark ++ (preview ++ (closeMark ++ back)))
  omega

theorem isMarked (h : Marks opening closing) (hplain : Plain preview) :
    isMarked (opening ++ (preview ++ closing)) = true := by
  obtain ⟨-, hopen, -⟩ := h.read hplain
  rw [splitCount_eq] at hopen
  by_contra hnot
  rw [Bool.not_eq_true, isMarked_false] at hnot
  omega

end Marks

-- ================================================================= the lines

/-- The only line with marks is found. -/
theorem findMarks_marked (hbefore : ∀ l ∈ before, isMarked l = false)
    (hmarks : Marks opening closing) (hplain : Plain preview)
    (hafter : ∀ l ∈ after, isMarked l = false) :
    findMarks (before ++ (opening ++ (preview ++ closing)) :: after)
      = some (before, (opening, closing), after) := by
  have hpos : ∀ l ∈ before, (!isMarked l) = true := fun l hl => by rw [hbefore l hl]; rfl
  have hneg : (!isMarked (opening ++ (preview ++ closing))) = false := by
    rw [hmarks.isMarked hplain]
    rfl
  obtain ⟨hread, hopen, hclose⟩ := hmarks.read hplain
  unfold findMarks
  rw [dropWhile_cut hpos hneg, takeWhile_cut hpos hneg]
  dsimp only
  rw [hread]
  dsimp only
  rw [if_neg]
  simpa [hopen, hclose] using hafter

/-- A second line with a mark is one too many. -/
theorem findMarks_none (hline : isMarked line = true)
    (hafter : ∃ l ∈ after, isMarked l = true) : findMarks (line :: after) = none := by
  unfold findMarks
  rw [List.dropWhile_cons_of_neg (by rw [hline]; decide)]
  dsimp only
  cases reVersionMarks line with
  | none => rfl
  | some marks =>
      dsimp only
      rw [if_pos]
      rw [List.any_eq_true.mpr hafter]
      rfl

theorem findMarks_some {marks : Text × Text}
    (h : findMarks ls = some (before, marks, after)) :
    Marks marks.1 marks.2 ∧ (∀ l ∈ before, isMarked l = false)
      ∧ (∀ l ∈ after, isMarked l = false)
      ∧ ∃ between, ls = before ++ (marks.1 ++ (between ++ marks.2)) :: after := by
  unfold findMarks at h
  split at h
  next => cases h
  next line rest hdrop =>
    split at h
    next => cases h
    next found hread =>
      split at h
      next => cases h
      next hchecks =>
        cases h
        simp only [Bool.or_eq_true, not_or, bne_iff_ne, ne_eq, not_not,
          Bool.not_eq_true] at hchecks
        obtain ⟨⟨hafter, hopen⟩, hclose⟩ := hchecks
        obtain ⟨hmarks, between, hline⟩ := marks_of_read hread hopen hclose
        refine ⟨hmarks, ?_, by simpa using hafter, between, ?_⟩
        · intro l hl
          simpa using List.mem_takeWhile_imp hl
        · rw [← hline, ← hdrop, List.takeWhile_append_dropWhile]

-- ================================================================ previews

variable {level label : Text} {latest : Version}

theorem not_mem_versionText {c : Char} (hdigit : isAsciiDigit c = false)
    (hdot : c ≠ '.') (major minor patch : Nat) : c ∉ versionText major minor patch := by
  have hformat := not_mem_format hdigit
  simp [versionText, List.intercalate, hformat, hdot]

theorem getNextVersion_chars [Culture] {next : Text} {c : Char}
    (h : getNextVersion level label latest = .ok next)
    (hdigit : isAsciiDigit c = false) (hdot : c ≠ '.') : c ∉ next := by
  unfold getNextVersion at h
  dsimp only at h
  split at h
  next => cases h
  next =>
    split at h
    next => cases h
    next =>
      cases h
      exact not_mem_versionText hdigit hdot _ _ _

theorem not_mem_tagName {c : Char} (hdigit : isAsciiDigit c = false)
    (hdot : c ≠ '.') (hv : c ≠ 'v') (v : Version) : c ∉ tagName v := by
  have hformat := not_mem_format hdigit
  simp [tagName, hformat, hdot, hv]

/-- A level or a label names a level. -/
def NamesLevel (level label : Text) : Prop :=
  shownLevel level label ∈ [Level.major, .minor, .patch, .none].map Level.text

theorem namesLevel_of_label (h : label ∈ labels) (level : Text) :
    NamesLevel level label := by
  unfold NamesLevel
  simp only [labels, List.mem_cons, List.not_mem_nil, or_false] at h
  rcases h with rfl | rfl | rfl
  all_goals
    unfold shownLevel
    rw [if_pos (by decide)]
    decide

theorem namesLevel_of_level (l : Level) : NamesLevel l.text [] := by
  unfold NamesLevel shownLevel
  rw [if_neg (by decide)]
  cases l <;> decide

/-- A preview has no mark, and no part of one. -/
theorem plain_preview [Culture] (hnames : NamesLevel level label)
    (h : formatVersionPreview level label latest = .ok preview) : Plain preview := by
  have hshown : '<' ∉ shownLevel level label ∧ '>' ∉ shownLevel level label
      ∧ '\n' ∉ shownLevel level label := by
    have hall : ∀ t ∈ [Level.major, .minor, .patch, .none].map Level.text,
        '<' ∉ t ∧ '>' ∉ t ∧ '\n' ∉ t := by decide
    exact hall _ hnames
  unfold formatVersionPreview at h
  split at h
  next => cases h
  next next hnext =>
    cases h
    have habsent : ∀ {c : Char}, isAsciiDigit c = false → c ≠ '.' → c ≠ 'v' →
        c ∉ " (".toList → c ∉ " + ".toList → c ∉ ")".toList →
        c ∉ shownLevel level label →
        c ∉ 'v' :: next ++ " (".toList ++ tagName latest ++ " + ".toList
          ++ shownLevel level label ++ ")".toList := by
      intro c hdigit hdot hv hopen hplus hclose hlevel
      have hversion := getNextVersion_chars hnext hdigit hdot
      have htag := not_mem_tagName hdigit hdot hv latest
      simp only [List.mem_append, List.mem_cons, not_or]
      exact ⟨⟨⟨⟨⟨⟨hv, hversion⟩, hopen⟩, htag⟩, hplus⟩, hlevel⟩, hclose⟩
    constructor
    · exact habsent (by decide) (by decide) (by decide) (by decide) (by decide)
        (by decide) hshown.1
    · exact habsent (by decide) (by decide) (by decide) (by decide) (by decide)
        (by decide) hshown.2.1
    · exact List.mem_append_right _ (by decide)
    · exact habsent (by decide) (by decide) (by decide) (by decide) (by decide)
        (by decide) hshown.2.2

/-- With a label the level does not count. -/
theorem formatVersionPreview_label [Culture] (h : label ∈ labels) (level : Text) :
    formatVersionPreview level label latest = formatVersionPreview [] label latest := by
  have hshown : shownLevel level label = shownLevel [] label := by
    have hne : label ≠ [] := by
      rintro rfl
      exact absurd h (by decide)
    unfold shownLevel
    rw [if_pos hne, if_pos hne]
  unfold formatVersionPreview getNextVersion
  rw [hshown]

-- =========================================================== a second label

variable {git : Git} {display text body : Text} {stderr : List Text}

/-- A new version replaces the one before it, in every body. -/
theorem bodyVersion_again [Culture] (hlabel : label ∈ labels)
    (h : bodyVersion git display label text = .ok (body, stderr)) (label' : Text) :
    bodyVersion git display label' body = bodyVersion git display label' text := by
  obtain ⟨found, htext, hbody⟩ : ∃ found, findMarks (lines text) = some found
      ∧ findMarks (lines body) = some found := by
    unfold bodyVersion at h
    split at h
    next => cases h
    next before marks after hfind =>
      split at h
      next => cases h
      next =>
        split at h
        next => cases h
        next preview hpreview =>
          cases h
          have hplain := plain_preview (namesLevel_of_label hlabel []) hpreview
          obtain ⟨hmarks, hbefore, hafter, between, hlines⟩ := findMarks_some hfind
          have hline : ∀ l ∈ lines text, '\n' ∉ l := fun l => not_mem_lines
          rw [hlines, List.forall_mem_append, List.forall_mem_cons] at hline
          simp only [List.mem_append, not_or] at hline
          obtain ⟨hbeforeLine, ⟨hopening, -, hclosing⟩, hafterLine⟩ := hline
          have hwritten : lines (joinLines (before ++ (marks.1 ++ preview ++ marks.2)
              :: after)) = before ++ (marks.1 ++ (preview ++ marks.2)) :: after := by
            rw [List.append_assoc]
            apply List.splitOn_intercalate _ _ (by simp)
            rw [List.forall_mem_append, List.forall_mem_cons]
            simp only [List.mem_append, not_or]
            exact ⟨hbeforeLine, ⟨hopening, hplain.oneLine, hclosing⟩, hafterLine⟩
          refine ⟨_, hfind, ?_⟩
          rw [hwritten, findMarks_marked hbefore hmarks hplain hafter]
  unfold bodyVersion
  rw [htext, hbody]

-- ========================================================== the description

variable {e : Entries} {warnings entries : List Text}

/-- No text that a description lists holds a mark. -/
def Unmarked (e : Entries) (warnings : List Text) : Prop :=
  ∀ t ∈ e.breaking ++ e.added ++ e.fixed ++ warnings, isMarked t = false

/-- A mark is in one line of a text. -/
theorem isMarked_lines : isMarked t = false ↔ ∀ l ∈ lines t, isMarked l = false := by
  have hcount : ∀ {s : Text}, s ≠ [] → Apart s ['\n'] →
      (occurrences s t = 0 ↔ ∀ l ∈ lines t, occurrences s l = 0) := by
    intro s hs hapart
    have hsum := occurrences_intercalate hs hapart (lines t)
    have hjoin : ['\n'].intercalate (lines t) = t := joinLines_lines t
    rw [hjoin] at hsum
    rw [hsum, List.sum_eq_zero_iff_forall_eq_nat]
    simp
  have hline : '\n' ∈ ['\n'] := List.mem_singleton_self _
  have hopen : Apart openMark ['\n'] :=
    apart_of_brackets rfl rfl (by decide) (by decide) hline (by decide)
  have hclose : Apart closeMark ['\n'] :=
    apart_of_brackets rfl rfl (by decide) (by decide) hline (by decide)
  simp only [isMarked_false, hcount openMark_ne_nil hopen,
    hcount closeMark_ne_nil hclose]
  constructor
  · exact fun h l hl => ⟨h.1 l hl, h.2 l hl⟩
  · exact fun h => ⟨fun l hl => (h l hl).1, fun l hl => (h l hl).2⟩

/-- What is put before an entry is no part of a mark. -/
theorem isMarked_skip {front : Text} (h : '<' ∉ front) (t : Text) :
    isMarked (front ++ t) = false ↔ isMarked t = false := by
  have hopen : ∀ c ∈ openMark.head?, c ∉ front := by
    intro c hc
    cases hc
    exact h
  have hclose : ∀ c ∈ closeMark.head?, c ∉ front := by
    intro c hc
    cases hc
    exact h
  rw [isMarked_false, isMarked_false, occurrences_skip openMark_ne_nil hopen,
    occurrences_skip closeMark_ne_nil hclose]

theorem isMarked_of_not_mem (h : '<' ∉ t) : isMarked t = false := by
  have hskip := (isMarked_skip h []).mpr (by decide)
  rwa [List.append_nil] at hskip

/-- The characters of a literal, read off it. -/
theorem not_mem_literal {s : String} {l : Text} {c : Char}
    (hs : s = String.ofList l) (h : c ∉ l) : c ∉ s.toList := by
  rw [hs, String.toList_ofList]
  exact h

theorem unmarked_map {front : Text} (h : '<' ∉ front) :
    (∀ l ∈ entries.map (front ++ ·), isMarked l = false)
      ↔ ∀ t ∈ entries, isMarked t = false := by
  rw [List.forall_mem_map]
  simp only [isMarked_skip h]

theorem unmarked_caution : (∀ l ∈ cautionLines entries, isMarked l = false)
    ↔ ∀ t ∈ entries, isMarked t = false := by
  unfold cautionLines
  split
  next hnone =>
    rw [List.isEmpty_iff] at hnone
    rw [hnone]
  next =>
    have hfixed : ∀ l ∈ ["> [!CAUTION]".toList,
        "> **Breaking change.** This release contains:".toList, ">".toList],
        isMarked l = false := by
      simp only [List.forall_mem_cons]
      exact ⟨isMarked_of_not_mem (not_mem_literal rfl (by decide)),
        isMarked_of_not_mem (not_mem_literal rfl (by decide)), by decide,
        List.forall_mem_nil _⟩
    rw [List.forall_mem_append, List.forall_mem_append, unmarked_map (by decide)]
    constructor
    · exact fun h => h.1.2
    · exact fun h => ⟨⟨hfixed, h⟩, by decide⟩

theorem unmarked_part {title : String}
    (htitle : isMarked ("### ".toList ++ title.toList) = false) :
    (∀ l ∈ partLines title entries, isMarked l = false)
      ↔ ∀ t ∈ entries, isMarked t = false := by
  by_cases hne : entries = []
  · rw [hne]
    exact iff_of_true (List.forall_mem_nil _) (List.forall_mem_nil _)
  · rw [partLines_of_ne_nil hne]
    simp only [List.forall_mem_cons]
    constructor
    · exact fun h => h.2.2.2
    · exact fun h => ⟨by decide, htitle, by decide, h⟩

theorem unmarked_warnings : (∀ l ∈ warningLines warnings, isMarked l = false)
    ↔ ∀ t ∈ warnings, isMarked t = false := by
  unfold warningLines
  split
  next hnone =>
    rw [List.isEmpty_iff] at hnone
    rw [hnone]
  next =>
    have hfixed : ∀ l ∈ ["## Warnings".toList, []], isMarked l = false := by
      simp only [List.forall_mem_cons]
      exact ⟨isMarked_of_not_mem (not_mem_literal rfl (by decide)), by decide,
        List.forall_mem_nil _⟩
    rw [List.forall_mem_append, List.forall_mem_append, unmarked_map (by decide)]
    constructor
    · exact fun h => h.1.2
    · exact fun h => ⟨⟨hfixed, h⟩, by decide⟩

/-- No sentence of the review has an angle bracket. -/
theorem unmarked_review (breaking : List Text) :
    ∀ l ∈ reviewLines breaking, isMarked l = false := by
  suffices h : ∀ l ∈ reviewLines breaking, '<' ∉ l from
    fun l hl => isMarked_of_not_mem (h l hl)
  unfold reviewLines
  rw [List.forall_mem_append]
  constructor
  · simp only [List.forall_mem_cons, String.toList_append, List.mem_append, not_or]
    refine ⟨not_mem_literal rfl ?_, List.not_mem_nil,
      ⟨⟨⟨not_mem_literal rfl ?_, not_mem_literal rfl ?_⟩, not_mem_literal rfl ?_⟩,
        not_mem_literal rfl ?_⟩, List.not_mem_nil, not_mem_literal rfl ?_,
      ⟨not_mem_literal rfl ?_, not_mem_literal rfl ?_⟩,
      List.forall_mem_nil _⟩
    all_goals decide
  · split
    · exact List.forall_mem_nil _
    · rw [List.forall_mem_singleton, String.toList_append, List.mem_append, not_or]
      exact ⟨not_mem_literal rfl (by decide), not_mem_literal rfl (by decide)⟩

/-- The lines of a description but the first hold the marks of its texts. -/
theorem unmarked_body (e : Entries) (warnings : List Text) :
    (∀ l ∈ bodyLines e warnings, isMarked l = false) ↔ Unmarked e warnings := by
  have hempty : isMarked [] = false := by decide
  have hfixed : ∀ l ∈ ["## Release notes".toList, [],
      ("Development entries stay in CHANGELOG.md and are left out of the "
        ++ "GitHub release notes.").toList], isMarked l = false := by
    simp only [List.forall_mem_cons]
    refine ⟨isMarked_of_not_mem (not_mem_literal rfl (by decide)), hempty,
      isMarked_of_not_mem ?_, List.forall_mem_nil _⟩
    rw [String.toList_append, List.mem_append, not_or]
    exact ⟨not_mem_literal rfl (by decide), not_mem_literal rfl (by decide)⟩
  have htitle : ∀ {title : String}, '<' ∉ title.toList →
      isMarked ("### ".toList ++ title.toList) = false :=
    fun h => (isMarked_skip (by decide) _).mpr (isMarked_of_not_mem h)
  have hbreaking : isMarked ("### ".toList ++ "Breaking changes".toList) = false :=
    htitle (by decide)
  have hadded : isMarked ("### ".toList ++ "Added".toList) = false :=
    htitle (by decide)
  have hfixes : isMarked ("### ".toList ++ "Fixed".toList) = false :=
    htitle (by decide)
  have hreview := unmarked_review e.breaking
  unfold bodyLines Unmarked
  rw [notesPreview_eq]
  simp only [List.forall_mem_cons, List.forall_mem_append, unmarked_caution,
    unmarked_part hbreaking, unmarked_part hadded, unmarked_part hfixes,
    unmarked_warnings]
  constructor
  · rintro ⟨-, ⟨⟨⟨⟨-, -⟩, ⟨h, h'⟩, h''⟩, -⟩, hwarnings⟩, -⟩
    exact ⟨⟨⟨h, h'⟩, h''⟩, hwarnings⟩
  · rintro ⟨⟨⟨h, h'⟩, h''⟩, hwarnings⟩
    simp only [List.forall_mem_cons] at hfixed
    exact ⟨hempty, ⟨⟨⟨⟨h, hfixed⟩, ⟨h, h'⟩, h''⟩, hempty, List.forall_mem_nil _⟩,
      hwarnings⟩, hreview⟩

/-- The text before the preview of a description. -/
def previewOpening : Text := "Version preview: ".toList ++ openMark

theorem marks_preview : Marks previewOpening closeMark where
  opens := List.suffix_append _ _
  closes := List.prefix_rfl
  openOnce := by decide
  closeOnce := by decide

theorem previewLine_eq (preview : Text) :
    previewLine preview = previewOpening ++ (preview ++ closeMark) := by
  unfold previewLine previewOpening
  rw [List.append_assoc]

/-- The lines of a description, as they are read. -/
theorem lines_description (h : Plain preview) :
    lines (joinLines (descriptionLines preview e warnings) ++ ['\n'])
      = previewLine preview :: ((bodyLines e warnings).flatMap lines ++ [[]]) := by
  have hopening : '\n' ∉ previewOpening := by decide
  have hclosing : '\n' ∉ closeMark := by decide
  have hfirst : '\n' ∉ previewLine preview := by
    rw [previewLine_eq]
    simp only [List.mem_append, not_or]
    exact ⟨hopening, h.oneLine, hclosing⟩
  unfold descriptionLines
  rw [lines_append_newline, lines_joinLines (List.cons_ne_nil _ _),
    List.flatMap_cons, lines_line hfirst]
  rfl

theorem unmarked_read : (∀ l ∈ (bodyLines e warnings).flatMap lines ++ [[]],
    isMarked l = false) ↔ Unmarked e warnings := by
  have hempty : isMarked [] = false := by decide
  rw [← unmarked_body, List.forall_mem_append, List.forall_mem_singleton]
  simp only [List.forall_mem_flatMap, ← isMarked_lines]
  exact and_iff_left hempty

/-- The next version goes between the marks of a description whose texts
hold no mark. -/
theorem bodyVersion_description [Culture] {preview' : Text} (hlabel : label ∈ labels)
    (hplain : Plain preview) (hunmarked : Unmarked e warnings)
    (hlatest : getLastVersion git = .ok (latest, stderr))
    (hpreview : formatVersionPreview [] label latest = .ok preview') :
    bodyVersion git display label
        (joinLines (descriptionLines preview e warnings) ++ ['\n'])
      = .ok (joinLines (descriptionLines preview' e warnings) ++ ['\n'], stderr) := by
  have hbefore : ∀ l ∈ ([] : List Text), isMarked l = false := List.forall_mem_nil _
  have hfind := findMarks_marked hbefore marks_preview hplain
    (unmarked_read.mpr hunmarked)
  have hjoin : joinLines (previewLine preview'
        :: ((bodyLines e warnings).flatMap lines ++ [[]]))
      = joinLines (descriptionLines preview' e warnings) ++ ['\n'] := by
    rw [← lines_description (plain_preview (namesLevel_of_label hlabel []) hpreview),
      joinLines_lines]
  unfold bodyVersion
  rw [lines_description hplain, previewLine_eq, ← List.nil_append (_ :: _), hfind,
    hlatest]
  dsimp only
  rw [hpreview, ← hjoin, previewLine_eq]
  dsimp only
  rw [List.append_assoc]
  rfl

/-- A mark in another text stops it. -/
theorem bodyVersion_refused [Culture] (hplain : Plain preview)
    (hmarked : ¬ Unmarked e warnings) :
    bodyVersion git display label
        (joinLines (descriptionLines preview e warnings) ++ ['\n'])
      = .error (marksRefused display
        (lines (joinLines (descriptionLines preview e warnings) ++ ['\n']))) := by
  have hline : isMarked (previewLine preview) = true := by
    rw [previewLine_eq]
    exact marks_preview.isMarked hplain
  have hafter : ∃ l ∈ (bodyLines e warnings).flatMap lines ++ [[]],
      isMarked l = true := by
    rw [← unmarked_read] at hmarked
    push Not at hmarked
    simpa using hmarked
  have hfind := findMarks_none hline hafter
  rw [← lines_description hplain] at hfind
  unfold bodyVersion
  rw [hfind]

-- ================================================================= the runs

variable {messages : PrMessages} {files : PrFiles} {a : PrBodyArgs}

theorem namesLevel_of_known (h : label = [] ∨ label ∈ labels) (l : Level) :
    NamesLevel l.text label := by
  rcases h with rfl | hlabel
  · exact namesLevel_of_level l
  · exact namesLevel_of_label hlabel l.text

theorem testPrBodyArguments_label [Culture] (h : testPrBodyArguments a = none)
    (hlabel : label ∈ labels) :
    testPrBodyArguments { a with label := label } = none := by
  unfold testPrBodyArguments at h ⊢
  split at h
  next => cases h
  next hbase =>
    split at h
    next => cases h
    next hurl =>
      rw [if_neg hbase, if_neg hurl, if_neg]
      rintro ⟨-, hbad⟩
      rw [ccontains_of_mem hlabel] at hbad
      cases hbad

/-- The last tag of a range is the one that `body-version` reads. -/
theorem latest_of_range [Culture] {range : Range} {base : Text}
    (h : resolveRange git base messages = .ok range)
    (hlatest : getLastVersion git = .ok (latest, stderr)) : range.latest = latest := by
  unfold resolveRange at h
  split at h
  next => cases h
  next =>
    unfold getRange getRangeLog at h
    rw [hlatest] at h
    dsimp only at h
    split at h
    next => cases h
    next log hlog =>
      split at h
      next => cases h
      next =>
        cases h
        split at hlog
        next => cases hlog
        next =>
          split at hlog
          next => cases hlog
          next =>
            cases hlog
            rfl

theorem invokeBodyVersionRun_label [Culture] (hlabel : label ∈ labels)
    (body : Text) : invokeBodyVersionRun git display label body
      = invokeGuarded (bodyVersion git display label body) :=
  if_neg (by rw [ccontains_of_mem hlabel]; decide)

/-- Relabelling is rebuilding, where no text of a description holds a mark:
`body-version` with a label makes of the description what `pr-body` writes
with the label. Where one does, `body-version` refuses. -/
theorem relabel_description [Culture] {d : Described} {next : Text}
    (hrun : invokePrBodyRun git messages files a text = .ok d)
    (hfirst : a.label = [] ∨ a.label ∈ labels) (hlabel : label ∈ labels)
    (hlatest : getLastVersion git = .ok (latest, stderr))
    (hnext : getNextVersion [] label latest = .ok next) :
    ∃ repo range, getRepoUrl (lines text) a.repoUrl = .ok repo
      ∧ resolveRange git a.base messages = .ok range
      ∧ (Unmarked (getEntries range repo) d.warnings →
        ∃ d', invokePrBodyRun git messages files { a with label := label } text = .ok d'
          ∧ invokeBodyVersionRun git display label d.output = .ok (d'.output, stderr))
      ∧ (¬ Unmarked (getEntries range repo) d.warnings →
        invokeBodyVersionRun git display label d.output
          = .error (.stopped (marksRefused display (lines d.output)))) := by
  obtain ⟨htest, repo, range, preview, hrepo, hrange, hreleased, hpreview, rfl⟩ :=
    prBody_ok_iff.mp hrun
  have hplain := plain_preview (namesLevel_of_known hfirst (getLevel range)) hpreview
  obtain ⟨preview', hpreview'⟩ : ∃ preview',
      formatVersionPreview [] label latest = .ok preview' := by
    unfold formatVersionPreview
    rw [hnext]
    exact ⟨_, rfl⟩
  refine ⟨repo, range, hrepo, hrange, ?_, ?_⟩
  · intro hunmarked
    have hagain : invokePrBodyRun git messages files { a with label := label } text
        = .ok ⟨joinLines (descriptionLines preview' (getEntries range repo)
            (bodyWarnings files range (getEntries range repo))) ++ ['\n'],
          bodyWarnings files range (getEntries range repo), range.stderr⟩ := by
      refine prBody_ok_iff.mpr ⟨?_, repo, range, preview', hrepo, hrange, hreleased,
        ?_, rfl⟩
      · exact testPrBodyArguments_label htest hlabel
      · rw [formatVersionPreview_label hlabel, latest_of_range hrange hlatest]
        exact hpreview'
    refine ⟨_, hagain, ?_⟩
    rw [invokeBodyVersionRun_label hlabel,
      bodyVersion_description hlabel hplain hunmarked hlatest hpreview']
    rfl
  · intro hmarked
    rw [invokeBodyVersionRun_label hlabel, bodyVersion_refused hplain hmarked]
    rfl

/-- Relabelling is rebuilding: a description with another label, or without
one, becomes what `pr-body` writes with the label, or is refused where a
text of it holds a mark. And in every body a second label replaces the
first. -/
theorem relabelled_is_rebuilt [Culture] (hlabel : label ∈ labels) :
    (∀ (messages : PrMessages) (files : PrFiles) (a : PrBodyArgs) (text : Text)
      (d : Described) (latest : Version) (stderr : List Text) (next : Text),
      invokePrBodyRun git messages files a text = .ok d →
      a.label = [] ∨ a.label ∈ labels →
      getLastVersion git = .ok (latest, stderr) →
      getNextVersion [] label latest = .ok next →
        ∃ repo range, getRepoUrl (lines text) a.repoUrl = .ok repo
          ∧ resolveRange git a.base messages = .ok range
          ∧ (Unmarked (getEntries range repo) d.warnings →
            ∃ d', invokePrBodyRun git messages files { a with label := label } text
                = .ok d'
              ∧ invokeBodyVersionRun git display label d.output
                = .ok (d'.output, stderr))
          ∧ (¬ Unmarked (getEntries range repo) d.warnings →
            invokeBodyVersionRun git display label d.output
              = .error (.stopped (marksRefused display (lines d.output)))))
      ∧ ∀ first ∈ labels, ∀ (written written' : Text) (warnings : List Text),
        invokeBodyVersionRun git display first written = .ok (written', warnings) →
          invokeBodyVersionRun git display label written'
            = invokeBodyVersionRun git display label written := by
  constructor
  · intro _ _ _ _ _ _ _ _ hrun hfirst hlatest hnext
    exact relabel_description hrun hfirst hlabel hlatest hnext
  · intro first hfirst written written' warnings hwritten
    rw [invokeBodyVersionRun_label hfirst] at hwritten
    rw [invokeBodyVersionRun_label hlabel, invokeBodyVersionRun_label hlabel,
      bodyVersion_again hfirst (invokeGuarded_ok hwritten) label]

-- ============================================================ two releases

open SoftHyphen

/-- Does a text that a run lists hold a mark? -/
def listsMark (git : Git) (messages : PrMessages) (files : PrFiles) (a : PrBodyArgs)
    (text : Text) : Option Bool :=
  match getRepoUrl (lines text) a.repoUrl, resolveRange git a.base messages with
  | .ok repo, .ok range =>
      let e := getEntries range repo
      some ((e.breaking ++ e.added ++ e.fixed ++ bodyWarnings files range e).any isMarked)
  | _, _ => none

theorem unmarked_iff {repo : Text} {range : Range}
    (hrepo : getRepoUrl (lines text) a.repoUrl = .ok repo)
    (hrange : resolveRange git a.base messages = .ok range) :
    Unmarked (getEntries range repo) (bodyWarnings files range (getEntries range repo))
      ↔ listsMark git messages files a text = some false := by
  unfold listsMark Unmarked
  rw [hrepo, hrange]
  dsimp only
  rw [Option.some.injEq, List.any_eq_false]
  simp only [Bool.not_eq_true]

/-- A message of the second of two pull requests. -/
def messageOf (message : String) : PrMessages := fun number =>
  if number = "4".toList then some [message.toList] else none

/-- Both are described, for the level of the label. -/
def describe (messages : PrMessages) (label : String) : Except Refusal Described :=
  invokePrBodyRun (fixes.gitWith releasedFile) messages (fun _ => none)
    ⟨shaOf 'c', [], label.toList⟩ releasedFile

def relabel (label : String) (body : Text) : Except Refusal (Text × List Text) :=
  invokeBodyVersionRun (fixes.gitWith releasedFile) "pr-body.md".toList label.toList
    body

theorem latest_fixes : getLastVersion (fixes.gitWith releasedFile)
    = .ok (toLex (1, toLex (0, 0)), []) := rfl

/-- The first label goes with a version above the computed one. -/
theorem relabelled_is_rebuilt_fixes :
    ∃ d d', describe (messageOf "fix: the date") "" = .ok d
      ∧ describe (messageOf "fix: the date") "bump:minor" = .ok d'
      ∧ relabel "bump:minor" d.output = .ok (d'.output, []) := by
  obtain ⟨d, hd⟩ := exists_of_toBool
    (x := describe (messageOf "fix: the date") "") (by decide)
  obtain ⟨next, hnext⟩ := exists_of_toBool
    (x := getNextVersion [] "bump:minor".toList (toLex (1, toLex (0, 0))))
    (by decide)
  obtain ⟨repo, range, hrepo, hrange, hsame, -⟩ :=
    (relabelled_is_rebuilt (by decide)).1 _ _ _ _ _ _ _ _ hd (Or.inl rfl)
      latest_fixes hnext
  obtain ⟨-, repo', range', preview, hrepo', hrange', -, -, rfl⟩ := prBody_ok_iff.mp hd
  rw [hrepo] at hrepo'
  rw [hrange] at hrange'
  cases hrepo'
  cases hrange'
  obtain ⟨d', hd', hversion⟩ :=
    hsame ((unmarked_iff hrepo hrange).mpr (by decide))
  exact ⟨_, d', hd, hd', hversion⟩

/-- A message that shows a mark: the release is described with the label
and without it, and the description without it is not relabelled. -/
theorem marked_message_refused :
    ∃ d d', describe (messageOf "fix: show <!-- version --> as text") "" = .ok d
      ∧ describe (messageOf "fix: show <!-- version --> as text") "bump:minor"
        = .ok d'
      ∧ relabel "bump:minor" d.output
        = .error (.stopped (marksRefused "pr-body.md".toList (lines d.output))) := by
  obtain ⟨d, hd⟩ := exists_of_toBool
    (x := describe (messageOf "fix: show <!-- version --> as text") "")
    (by decide)
  obtain ⟨d', hd'⟩ := exists_of_toBool
    (x := describe (messageOf "fix: show <!-- version --> as text") "bump:minor")
    (by decide)
  refine ⟨d, d', hd, hd', ?_⟩
  obtain ⟨htest, repo, range, preview, hrepo, hrange, -, hpreview, rfl⟩ :=
    prBody_ok_iff.mp hd
  have hplain := plain_preview (namesLevel_of_level (getLevel range)) hpreview
  have hmarked : ¬ Unmarked (getEntries range repo)
      (bodyWarnings (fun _ => none) range (getEntries range repo)) := by
    rw [unmarked_iff hrepo hrange]
    decide
  unfold relabel invokeBodyVersionRun
  rw [if_neg (by decide), bodyVersion_refused hplain hmarked]
  rfl

end RestifyCapl.Ci
