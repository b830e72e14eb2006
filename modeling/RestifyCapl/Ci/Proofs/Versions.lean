/-
Versions only go up. The tags `Get-LatestVersion` does not ignore are the
names of the versions whose fields are in range (`readTag_eq_some_iff`);
it returns the greatest of them, whatever the order of the list. A version
from `Get-NextVersion` is above that one, so no tag has its name yet, and it
is the latest once its tag is there. Over a run of releases, with other
tags made in between, the versions strictly increase (`versions_only_go_up`).
-/
import RestifyCapl.Ci.Level
import RestifyCapl.Lib.Machine

namespace RestifyCapl.Ci

open Lib

variable {name level label next : Text} {names : List Text} {v w : Version}

/-- No field is above `$MaxField`. -/
def InRange (v : Version) : Prop :=
  (ofLex v).1 ≤ maxField ∧ (ofLex (ofLex v).2).1 ≤ maxField
    ∧ (ofLex (ofLex v).2).2 ≤ maxField

instance : DecidablePred InRange := fun _ => inferInstanceAs (Decidable (_ ∧ _))

/-- The versions whose tags are in a list. -/
def versionsIn (names : List Text) : Set Version :=
  {v | InRange v ∧ tagName v ∈ names}

-- =============================================================== the names

theorem tagName_version (major minor patch : Nat) :
    tagName (version major minor patch) = 'v' :: versionText major minor patch := by
  simp [tagName, version, versionText, List.intercalate]

theorem isNumber_format (n : Nat) : isNumber (format n) = true :=
  isNumber_iff.mpr ⟨format_ne_nil n, format_digits n⟩

theorem splitOn_format (n : Nat) (rest : Text) :
    (format n ++ '.' :: rest).splitOn '.' = format n :: rest.splitOn '.' := by
  apply List.splitOn_append_cons_of_forall_mem_beq_eq_false _ '.' (by decide)
  intro c hc
  rw [beq_eq_false_iff_ne]
  rintro rfl
  cases format_digits n '.' hc

theorem tagShape_tagName (v : Version) :
    tagShape (tagName v) = some (format (ofLex v).1,
      format (ofLex (ofLex v).2).1, format (ofLex (ofLex v).2).2) := by
  have hlast : '.' ∉ format (ofLex (ofLex v).2).2 := by
    intro h
    cases format_digits _ '.' h
  have hsplit : (format (ofLex v).1 ++ '.' :: (format (ofLex (ofLex v).2).1
      ++ '.' :: format (ofLex (ofLex v).2).2)).splitOn '.'
      = [format (ofLex v).1, format (ofLex (ofLex v).2).1,
        format (ofLex (ofLex v).2).2] := by
    rw [splitOn_format, splitOn_format, List.splitOn_eq_singleton hlast]
  unfold tagName tagShape
  simp only [hsplit, isNumber_format, Bool.and_self, if_true]

theorem hasLeadingZero_format (n : Nat) : hasLeadingZero (format n) = false := by
  unfold hasLeadingZero
  rw [Bool.and_eq_false_iff, decide_eq_false_iff_not, beq_eq_false_iff_ne]
  by_cases h : 1 < (format n).length
  · exact Or.inr (head_format h)
  · exact Or.inl h

theorem aboveMaxField_format (n : Nat) :
    aboveMaxField (format n) = decide (maxField < n) := by
  unfold aboveMaxField
  rw [toInt_format]
  by_cases h : maxField < n
  · simp [h]
  · have hn : n < 10 ^ (4 + 1) := by
      unfold maxField at h
      omega
    have hlength := decimal_length_le hn
    rw [← length_format] at hlength
    simp [h, Nat.not_lt.mpr hlength]

/-- The name of a version is a valid tag when the version is in range. -/
theorem readTag_tagName (h : InRange v) : readTag (tagName v) = (some v, none) := by
  obtain ⟨hmajor, hminor, hpatch⟩ := h
  unfold readTag
  rw [tagShape_tagName]
  simp only [List.any_cons, List.any_nil, hasLeadingZero_format,
    aboveMaxField_format, toInt_format, Nat.not_lt.mpr hmajor,
    Nat.not_lt.mpr hminor, Nat.not_lt.mpr hpatch, Bool.or_false, decide_false]
  rfl

theorem inRange_of_readTag (h : (readTag name).1 = some v) : InRange v := by
  have hname := readTag_some h
  rw [hname] at h
  unfold readTag at h
  rw [tagShape_tagName] at h
  simp only [List.any_cons, List.any_nil, hasLeadingZero_format,
    aboveMaxField_format, Bool.or_false] at h
  rw [if_neg (by decide)] at h
  split at h
  next => cases h
  next hmax =>
    simp only [Bool.or_eq_true, decide_eq_true_eq, not_or, Nat.not_lt] at hmax
    exact hmax

/-- The valid tags are the names of the versions in range. -/
theorem readTag_eq_some_iff :
    (readTag name).1 = some v ↔ InRange v ∧ name = tagName v := by
  constructor
  · intro h
    exact ⟨inRange_of_readTag h, readTag_some h⟩
  · rintro ⟨hrange, rfl⟩
    rw [readTag_tagName hrange]

theorem tagName_inj (hv : InRange v) (hw : InRange w)
    (h : tagName v = tagName w) : v = w := by
  have hread := readTag_tagName hv
  rw [h, readTag_tagName hw] at hread
  injection hread with hread
  injection hread with hread
  exact hread.symm

-- ============================================================== the latest

theorem keysIn_readTag (names : List Text) :
    keysIn (fun name => (readTag name).1) names = versionsIn names := by
  ext v
  constructor
  · rintro ⟨name, hname, hread⟩
    obtain ⟨hrange, rfl⟩ := readTag_eq_some_iff.mp hread
    exact ⟨hrange, hname⟩
  · rintro ⟨hrange, hname⟩
    exact ⟨_, hname, readTag_eq_some_iff.mpr ⟨hrange, rfl⟩⟩

/-- `Get-LatestVersion` returns the greatest version of the list. -/
theorem getLatestVersion_some_iff :
    (getLatestVersion names).1 = some v ↔ IsGreatest (versionsIn names) v := by
  rw [← keysIn_readTag]
  exact keepBest_eq_some_iff

theorem getLatestVersion_none_iff :
    (getLatestVersion names).1 = none ↔ versionsIn names = ∅ := by
  rw [← keysIn_readTag]
  exact keepBest_eq_none_iff

/-- Neither the order of the tags nor the ignored ones matter. -/
theorem getLatestVersion_congr {names' : List Text}
    (h : versionsIn names = versionsIn names') :
    (getLatestVersion names).1 = (getLatestVersion names').1 := by
  cases hlatest : (getLatestVersion names').1 with
  | none => rw [getLatestVersion_none_iff, h, ← getLatestVersion_none_iff, hlatest]
  | some v => rw [getLatestVersion_some_iff, h, ← getLatestVersion_some_iff, hlatest]

-- =============================================================== above all

/-- A version above the latest is above all, and has no tag yet. -/
structure Above (names : List Text) (v : Version) : Prop where
  inRange : InRange v
  greater : ∀ w ∈ versionsIn names, w < v

theorem Above.fresh (h : Above names v) : tagName v ∉ names := by
  intro hmem
  exact lt_irrefl v (h.greater v ⟨h.inRange, hmem⟩)

/-- With its tag in the list, a version above all is the latest. -/
theorem Above.latest (h : Above names v) {tags : List Text}
    (htag : tagName v ∈ tags) (hothers : ∀ tag ∈ tags, tag ∈ tagName v :: names) :
    (getLatestVersion tags).1 = some v := by
  rw [getLatestVersion_some_iff]
  refine ⟨⟨h.inRange, htag⟩, ?_⟩
  rintro w ⟨hrange, hw⟩
  rcases List.mem_cons.mp (hothers _ hw) with heq | hmem
  · exact le_of_eq (tagName_inj hrange h.inRange heq)
  · exact le_of_lt (h.greater w ⟨hrange, hmem⟩)

-- ================================================================ the next

section Culture

variable [Culture]

/-- The version of the next fields. -/
def nextVersion (level : Text) (latest : Version) : Version :=
  version (nextFields level latest).1 (nextFields level latest).2.1
    (nextFields level latest).2.2

theorem lt_nextVersion (level : Text) (latest : Version) :
    latest < nextVersion level latest := by
  unfold nextVersion nextFields version
  dsimp only
  rw [Prod.Lex.lt_iff]
  split
  · exact Or.inl (Nat.lt_succ_self _)
  · right
    refine ⟨by split <;> rfl, ?_⟩
    rw [Prod.Lex.lt_iff]
    split
    · exact Or.inl (Nat.lt_succ_self _)
    · exact Or.inr ⟨rfl, Nat.lt_succ_self _⟩

/-- `Get-NextVersion` succeeds with the text of a version in range that is
above the last one. -/
theorem getNextVersion_ok {latest : Version}
    (h : getNextVersion level label latest = .ok next) :
    ∃ v, 'v' :: next = tagName v ∧ InRange v ∧ latest < v := by
  unfold getNextVersion at h
  dsimp only at h
  split at h
  next => cases h
  next =>
    split at h
    next => cases h
    next hmax =>
      injection h with h
      simp only [not_or, Nat.not_lt] at hmax
      refine ⟨nextVersion (shownLevel level label) latest, ?_, hmax,
        lt_nextVersion _ _⟩
      rw [nextVersion, tagName_version, h]

theorem getNextVersion_above {latest : Version}
    (hlatest : (getLatestVersion names).1 = some latest)
    (h : getNextVersion level label latest = .ok next) :
    ∃ v, 'v' :: next = tagName v ∧ Above names v := by
  obtain ⟨v, hname, hrange, hlt⟩ := getNextVersion_ok h
  refine ⟨v, hname, hrange, fun w hw => ?_⟩
  exact lt_of_le_of_lt ((getLatestVersion_some_iff.mp hlatest).2 hw) hlt

-- ================================================================ releases

/-- One release: the tags as git lists them, and what `Get-NextVersion` is
given. -/
structure Bump where
  listed : List Text
  level : Text
  label : Text

/-- Releases one after another. The state is the tags there are; others may
be made before the next release, and none goes away. -/
def releases : Machine (List Text) Bump Text where
  start _ := True
  step names bump :=
    if ∀ name ∈ names, name ∈ bump.listed then
      match (getLatestVersion bump.listed).1 with
      | none => none
      | some latest =>
          match getNextVersion bump.level bump.label latest with
          | .error _ => none
          | .ok next => some (next, ('v' :: next) :: bump.listed)
    else none

theorem releases_step {bump : Bump} {names' : List Text}
    (h : releases.step names bump = some (next, names')) :
    (∀ name ∈ names, name ∈ bump.listed) ∧ names' = ('v' :: next) :: bump.listed
      ∧ ∃ v, 'v' :: next = tagName v ∧ Above bump.listed v := by
  unfold releases at h
  dsimp only at h
  split at h
  next hkept =>
    cases hlatest : (getLatestVersion bump.listed).1 with
    | none =>
        rw [hlatest] at h
        cases h
    | some latest =>
        rw [hlatest] at h
        dsimp only at h
        split at h
        next => cases h
        next hnext =>
          cases h
          exact ⟨hkept, rfl, getNextVersion_above hlatest hnext⟩
  next => cases h

/-- The versions of a history, in order, with the tags it leads to. -/
structure Increasing (history : List (Bump × Text)) (names : List Text)
    (versions : List Version) : Prop where
  tags : history.map (fun release => 'v' :: release.2) = versions.map tagName
  strict : versions.Pairwise (· < ·)
  tagged : ∀ v ∈ versions, v ∈ versionsIn names

omit [Culture] in
theorem Increasing.nil (names : List Text) : Increasing [] names [] :=
  ⟨rfl, .nil, List.forall_mem_nil _⟩

/-- A release adds a version above those before. -/
theorem Increasing.snoc {history : List (Bump × Text)} {bump : Bump}
    {names' : List Text} {versions : List Version}
    (h : Increasing history names versions)
    (hstep : releases.step names bump = some (next, names')) :
    ∃ v, Increasing (history ++ [(bump, next)]) names' (versions ++ [v]) := by
  obtain ⟨hkept, rfl, v, hname, habove⟩ := releases_step hstep
  have hold : ∀ w ∈ versions, w ∈ versionsIn bump.listed := fun w hw =>
    ⟨(h.tagged w hw).1, hkept _ (h.tagged w hw).2⟩
  refine ⟨v, ?_, ?_, ?_⟩
  · rw [List.map_append, List.map_append, h.tags, List.map_singleton,
      List.map_singleton, hname]
  · rw [List.pairwise_append]
    refine ⟨h.strict, List.pairwise_singleton _ v, fun w hw u hu => ?_⟩
    rw [List.mem_singleton.mp hu]
    exact habove.greater w (hold w hw)
  · rw [List.forall_mem_append, List.forall_mem_singleton]
    constructor
    · intro w hw
      exact ⟨(hold w hw).1, List.mem_cons_of_mem _ (hold w hw).2⟩
    · rw [hname]
      exact ⟨habove.inRange, List.mem_cons_self⟩

theorem releases_increase {history : List (Bump × Text)}
    (h : releases.Reach history names) :
    ∃ versions, Increasing history names versions := by
  refine Machine.Reach.invariant
    (P := fun history names => ∃ versions, Increasing history names versions) ?_ ?_ h
  · intro names _
    exact ⟨[], .nil names⟩
  · rintro history names bump next names' - ⟨versions, hversions⟩ hstep
    obtain ⟨v, hv⟩ := hversions.snoc hstep
    exact ⟨versions ++ [v], hv⟩

/-- Versions only go up. -/
theorem versions_only_go_up :
    (∀ names v, (getLatestVersion names).1 = some v
        ↔ IsGreatest (versionsIn names) v)
      ∧ (∀ names, (getLatestVersion names).1 = none ↔ versionsIn names = ∅)
      ∧ (∀ names names', versionsIn names = versionsIn names' →
        (getLatestVersion names).1 = (getLatestVersion names').1)
      ∧ (∀ names names' : List Text, names.Perm names' →
        (getLatestVersion names).1 = (getLatestVersion names').1)
      ∧ (∀ names level label latest next,
        (getLatestVersion names).1 = some latest →
        getNextVersion level label latest = .ok next →
        ∃ v, 'v' :: next = tagName v ∧ readTag ('v' :: next) = (some v, none)
          ∧ (∀ w ∈ versionsIn names, w < v) ∧ 'v' :: next ∉ names
          ∧ ∀ tags, tags.Perm (('v' :: next) :: names) →
            (getLatestVersion tags).1 = some v)
      ∧ ∀ history names, releases.Reach history names →
        ∃ versions : List Version,
          history.map (fun release => 'v' :: release.2) = versions.map tagName
            ∧ versions.Pairwise (· < ·) := by
  refine ⟨fun _ _ => getLatestVersion_some_iff, fun _ => getLatestVersion_none_iff,
    fun _ _ => getLatestVersion_congr, ?_, ?_, ?_⟩
  · intro names names' hperm
    apply getLatestVersion_congr
    ext v
    exact and_congr_right fun _ => hperm.mem_iff
  · intro names level label latest next hlatest hnext
    obtain ⟨v, hname, habove⟩ := getNextVersion_above hlatest hnext
    rw [hname]
    refine ⟨v, rfl, readTag_tagName habove.inRange, habove.greater, habove.fresh, ?_⟩
    intro tags hperm
    exact habove.latest (hperm.mem_iff.mpr List.mem_cons_self) fun _ =>
      hperm.mem_iff.mp
  · intro history names hreach
    obtain ⟨versions, hversions⟩ := releases_increase hreach
    exact ⟨versions, hversions.tags, hversions.strict⟩

end Culture

open SoftHyphen

/-- `v1.10.0` is above `v1.9.0`, and two of the tags are ignored. -/
def mixedTags : List Text :=
  ["v1.9.0".toList, "v01.20.0".toList, "v1.10.0".toList, "v1.70000.0".toList]

theorem versions_only_go_up_mixed :
    (getLatestVersion mixedTags).1 = some (version 1 10 0)
      ∧ (∀ w ∈ versionsIn mixedTags, w < version 1 11 0)
      ∧ "v1.11.0".toList ∉ mixedTags := by
  have hlatest : (getLatestVersion mixedTags).1 = some (version 1 10 0) := by
    decide
  obtain ⟨v, -, hread, habove, hfresh, -⟩ :=
    versions_only_go_up.2.2.2.2.1 mixedTags "minor".toList [] _ "1.11.0".toList
      hlatest (by decide)
  have hv : (readTag "v1.11.0".toList).1 = some (version 1 11 0) := by
    decide
  rw [show readTag "v1.11.0".toList = (some v, none) from hread] at hv
  injection hv with hv
  rw [hv] at habove
  exact ⟨hlatest, habove, hfresh⟩

end RestifyCapl.Ci
