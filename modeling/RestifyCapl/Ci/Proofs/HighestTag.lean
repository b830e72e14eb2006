/-
Two notions of the highest tag. The tag job takes the highest name of
the shape `vX.Y.Z`; `Get-LatestVersion` ignores a shaped name with a
leading zero or a field above 65535, and it gets the names from
`Get-GitOutput`, which trims what `git tag --list` printed. They agree on
a commit unless the highest name of the shape is ignored, or is below a
name that the trimming has made, and it, or the highest valid name that
was read, is on the commit (`highest_tags_agree_iff`).
-/
import RestifyCapl.Ci.Release
import RestifyCapl.Ci.Proofs.Printed
import Mathlib.Data.List.Sort

namespace RestifyCapl.Ci

open Lib

variable {C : Type} [DecidableEq C] {tags : List (TagRef C)} {sha : C}
variable {git : Git} {sortV : List Text → List Text}

/-- The tag is there and on the commit. -/
def Carries (tags : List (TagRef C)) (sha : C) (name : Text) : Prop :=
  ⟨name, sha⟩ ∈ tags

/-- The highest version-shaped name of a list. -/
def HighestShaped (names : List Text) (name : Text) : Prop :=
  name ∈ names ∧ isVersionTag name = true
    ∧ ∀ other ∈ names, isVersionTag other = true →
      versionKey other ≤ versionKey name

/-- A tag that `Get-LatestVersion` does not ignore. -/
def Valid (name : Text) : Prop := ∃ v, (readTag name).1 = some v

/-- The highest of the names that are not ignored. -/
def HighestValid (names : List Text) (name : Text) : Prop :=
  name ∈ names ∧ Valid name
    ∧ ∀ other ∈ names, Valid other → shapedVersion other ≤ shapedVersion name

-- =============================================================== the names

theorem readTag_version {name : Text} {v : Version}
    (h : (readTag name).1 = some v) :
    isVersionTag name = true ∧ v = shapedVersion name := by
  unfold readTag at h
  unfold isVersionTag shapedVersion
  split at h
  next => cases h
  next major minor patch hshape =>
    rw [hshape]
    refine ⟨rfl, ?_⟩
    split at h
    next => cases h
    next =>
      split at h
      next => cases h
      next =>
        cases h
        rfl

theorem Valid.shaped {name : Text} (h : Valid name) :
    isVersionTag name = true := by
  obtain ⟨v, hv⟩ := h
  exact (readTag_version hv).1

/-- A valid tag is the name of its version. -/
theorem Valid.name_eq {name : Text} (h : Valid name) :
    name = tagName (shapedVersion name) := by
  obtain ⟨v, hv⟩ := h
  rw [← (readTag_version hv).2]
  exact readTag_some hv

/-- `Get-LatestVersion` names the highest valid tag. -/
theorem latest_iff {names : List Text} {name : Text} :
    (getLatestVersion names).1.map tagName = some name
      ↔ HighestValid names name := by
  unfold getLatestVersion
  constructor
  · intro h
    obtain ⟨v, hv, rfl⟩ := Option.map_eq_some_iff.mp h
    obtain ⟨⟨best, hbest, hread⟩, hbound⟩ := keepBest_eq_some_iff.mp hv
    rw [← readTag_some hread]
    refine ⟨hbest, ⟨v, hread⟩, ?_⟩
    rintro other hother ⟨w, hw⟩
    rw [← (readTag_version hread).2, ← (readTag_version hw).2]
    exact hbound ⟨other, hother, hw⟩
  · rintro ⟨hmem, hvalid, hbound⟩
    obtain ⟨v, hv⟩ := id hvalid
    have hbest : keepBest (fun name => (readTag name).1) names = some v := by
      rw [keepBest_eq_some_iff]
      refine ⟨⟨name, hmem, hv⟩, ?_⟩
      rintro w ⟨other, hother, hw⟩
      rw [(readTag_version hv).2, (readTag_version hw).2]
      exact hbound other hother ⟨w, hw⟩
    rw [hbest, Option.map_some, readTag_some hv]

theorem HighestShaped.unique {names : List Text} {a b : Text}
    (ha : HighestShaped names a) (hb : HighestShaped names b) : a = b := by
  have heq := le_antisymm (hb.2.2 a ha.1 ha.2.1) (ha.2.2 b hb.1 hb.2.1)
  exact congrArg (fun key => (ofLex key).2) heq

theorem HighestValid.unique {names : List Text} {a b : Text}
    (ha : HighestValid names a) (hb : HighestValid names b) : a = b := by
  rw [ha.2.1.name_eq, hb.2.1.name_eq,
    le_antisymm (hb.2.2 a ha.1 ha.2.1) (ha.2.2 b hb.1 hb.2.1)]

/-- The highest name of the shape, where it is valid, is the highest valid
one. -/
theorem HighestShaped.valid {names : List Text} {name : Text}
    (h : HighestShaped names name) (hvalid : Valid name) :
    HighestValid names name := by
  refine ⟨h.1, hvalid, fun other hother hv => ?_⟩
  rcases Prod.Lex.toLex_le_toLex.mp (h.2.2 other hother hv.shaped) with
    hlt | ⟨heq, -⟩
  · exact le_of_lt hlt
  · exact le_of_eq heq

-- ================================================================ the steps

/-- The loop over the sorted names finds the highest of the shape. -/
theorem keepLast_sortV_iff (hsort : VersionSort sortV) {names : List Text}
    {name : Text} :
    keepLast isVersionTag (sortV names) = some name
      ↔ HighestShaped names name := by
  have hfound : ∀ {found}, keepLast isVersionTag (sortV names) = some found →
      HighestShaped names found := by
    intro found h
    obtain ⟨hmem, hshaped, hall⟩ := @keepLast_greatest _ _ _
      (fun a b => versionKey a ≤ versionKey b) (fun _ => le_refl _)
      (hsort.ordered names) _ h
    have hperm := hsort.perm names
    exact ⟨hperm.mem_iff.mp hmem, hshaped, fun other hother =>
      hall other (hperm.mem_iff.mpr hother)⟩
  refine ⟨hfound, fun h => ?_⟩
  cases hlast : keepLast isVersionTag (sortV names) with
  | none =>
      have := keepLast_none_iff.mp hlast name
        ((hsort.perm names).mem_iff.mpr h.1)
      rw [h.2.1] at this
      cases this
  | some found => rw [(hfound hlast).unique h]

omit [DecidableEq C] in
theorem tagCommit_eq_some_iff {name : Text}
    (hnodup : (tagList tags).Nodup) :
    tagCommit tags name = some sha ↔ Carries tags sha name := by
  unfold tagCommit Carries
  constructor
  · intro h
    obtain ⟨tag, hfind, rfl⟩ := Option.map_eq_some_iff.mp h
    have hname : tag.name = name := by simpa using List.find?_some hfind
    rw [← hname]
    exact List.mem_of_find?_eq_some hfind
  · intro h
    cases hfind : tags.find? fun tag => tag.name == name with
    | none =>
        have := List.find?_eq_none.mp hfind _ h
        simp at this
    | some tag =>
        have hname : tag.name = name := by simpa using List.find?_some hfind
        have htag : tag = ⟨name, sha⟩ := List.inj_on_of_nodup_map hnodup
          (List.mem_of_find?_eq_some hfind) h hname
        rw [htag]
        rfl

/-- Step `guard` looks for the highest of the shape on the commit. -/
theorem guardStep_tagged_iff (hsort : VersionSort sortV)
    (hnodup : (tagList tags).Nodup) :
    guardStep sortV tags sha = .tagged
      ↔ ∃ name, HighestShaped (tagList tags) name
        ∧ Carries tags sha name := by
  unfold guardStep
  constructor
  · intro h
    cases hlast : keepLast isVersionTag (sortV (tagList tags)) with
    | none =>
        rw [hlast] at h
        cases h
    | some name =>
        rw [hlast] at h
        dsimp only at h
        split at h
        next hcommit =>
          exact ⟨name, (keepLast_sortV_iff hsort).mp hlast,
            (tagCommit_eq_some_iff hnodup).mp hcommit⟩
        next => cases h
  · rintro ⟨name, hhighest, hcarries⟩
    rw [(keepLast_sortV_iff hsort).mpr hhighest]
    exact if_pos ((tagCommit_eq_some_iff hnodup).mpr hcarries)

theorem mem_pointsAt {name : Text} :
    name ∈ pointsAt tags sha ↔ Carries tags sha name := by
  unfold pointsAt Carries
  rw [List.mem_map]
  constructor
  · rintro ⟨tag, htag, rfl⟩
    rw [List.mem_filter, decide_eq_true_eq] at htag
    rw [← htag.2]
    exact htag.1
  · intro h
    exact ⟨_, List.mem_filter.mpr ⟨h, decide_eq_true rfl⟩, rfl⟩

omit [DecidableEq C] in
theorem Carries.mem_tagList {name : Text} (h : Carries tags sha name) :
    name ∈ tagList tags := List.mem_map.mpr ⟨_, h, rfl⟩

/-- The highest of all that is on the commit is the highest on it, which
step `existing` finds. -/
theorem existingStep_of_highest (hsort : VersionSort sortV) {name : Text}
    (hhighest : HighestShaped (tagList tags) name)
    (hcarries : Carries tags sha name) :
    existingStep sortV tags sha = some name := by
  unfold existingStep
  rw [keepLast_sortV_iff hsort]
  exact ⟨mem_pointsAt.mpr hcarries, hhighest.2.1, fun other hother =>
    hhighest.2.2 other (mem_pointsAt.mp hother).mem_tagList⟩

-- ============================================================ the agreement

/-- The tag the script selects. -/
def latestTag (git : Git) : Option Text :=
  (getLastVersion git).toOption.map fun found => tagName found.1

/-- The names the script reads of the listing, which is trimmed as a
whole. -/
def namesRead (tags : List (TagRef C)) : List Text :=
  splitWords (trim (printLines (tagList tags)))

/-- The tag job takes the commit for tagged exactly when it carries the
latest valid tag, and reuses this one. -/
structure TagsAgree (sortV : List Text → List Text) (git : Git)
    (tags : List (TagRef C)) (sha : C) : Prop where
  decides : guardStep sortV tags sha = .tagged
    ↔ ∃ name, latestTag git = some name ∧ Carries tags sha name
  reuses : guardStep sortV tags sha = .tagged →
    existingStep sortV tags sha = latestTag git

/-- A name that is read is a valid tag above another. Where the other is
the highest of its shape, this one is no tag: the trimming has made it. -/
def Outdone (tags : List (TagRef C)) (name : Text) : Prop :=
  ∃ other ∈ namesRead tags, Valid other
    ∧ shapedVersion name < shapedVersion other

/-- The highest name of the shape is ignored or outdone, and it, or the
highest valid name that is read, is on the commit. -/
def Misled (tags : List (TagRef C)) (sha : C) : Prop :=
  ∃ name, HighestShaped (tagList tags) name
    ∧ (¬ Valid name ∨ Outdone tags name)
    ∧ (Carries tags sha name
      ∨ ∃ valid, HighestValid (namesRead tags) valid
        ∧ Carries tags sha valid)

omit [DecidableEq C] in
/-- `Get-LastVersion` finds the latest of the names that are read. -/
theorem getLastVersion_ok_iff
    (hgit : git listTags = success (printLines (tagList tags))) {v : Version}
    {stderr : List Text} :
    getLastVersion git = .ok (v, stderr)
      ↔ getLatestVersion (namesRead tags) = (some v, stderr) := by
  unfold getLastVersion namesRead getGitOutput
  rw [hgit]
  dsimp only [success]
  rw [if_neg (by decide)]
  dsimp only
  rcases getLatestVersion (splitWords (trim (printLines (tagList tags))))
    with ⟨_ | latest, warnings⟩
  · simp
  · simp

omit [DecidableEq C] in
theorem latestTag_iff
    (hgit : git listTags = success (printLines (tagList tags))) {name : Text} :
    latestTag git = some name ↔ HighestValid (namesRead tags) name := by
  rw [← latest_iff, Option.map_eq_some_iff]
  unfold latestTag
  rw [Option.map_eq_some_iff]
  constructor
  · rintro ⟨⟨v, stderr⟩, hv, hname⟩
    have hlast : getLastVersion git = .ok (v, stderr) := by
      cases h : getLastVersion git with
      | error e =>
          rw [h] at hv
          cases hv
      | ok found =>
          rw [h] at hv
          cases hv
          rfl
    rw [getLastVersion_ok_iff hgit] at hlast
    exact ⟨v, congrArg Prod.fst hlast, hname⟩
  · rintro ⟨v, hv, hname⟩
    have hlast := (getLastVersion_ok_iff hgit).mpr (Prod.ext hv rfl)
    exact ⟨_, by rw [hlast]; rfl, hname⟩

theorem tagName_clean (v : Version) :
    ∀ c ∈ tagName v, isWhiteSpace c = false := by
  intro c hc
  have hdigit : ∀ {n}, c ∈ format n → isWhiteSpace c = false :=
    fun hmem => isHex_clean (by simp [isHex, format_digits _ c hmem])
  unfold tagName at hc
  simp only [List.mem_cons, List.mem_append] at hc
  rcases hc with rfl | hc | rfl | hc | rfl | hc
  · rfl
  · exact hdigit hc
  · rfl
  · exact hdigit hc
  · rfl
  · exact hdigit hc

/-- A valid tag has no white space. -/
theorem Valid.clean {name : Text} (h : Valid name) :
    ∀ c ∈ name, isWhiteSpace c = false := by
  rw [h.name_eq]
  exact tagName_clean _

theorem not_isWordBlank {c : Char} (h : isWhiteSpace c = false) :
    isWordBlank c = false := by
  by_contra hblank
  rw [Bool.not_eq_false] at hblank
  simp only [isWordBlank, Bool.or_eq_true, beq_iff_eq] at hblank
  rcases hblank with ((rfl | rfl) | rfl) | rfl <;> revert h <;> decide

omit [DecidableEq C] in
/-- So it is read as it is. -/
theorem Valid.mem_namesRead {name : Text} (h : Valid name)
    (hmem : name ∈ tagList tags) : name ∈ namesRead tags := by
  apply mem_splitWords_trim _ _ hmem
  · refine ⟨?_, fun c hc => not_isWordBlank (h.clean c hc)⟩
    rw [h.name_eq]
    exact List.cons_ne_nil _ _
  · exact ⟨fun c hc => h.clean c (List.mem_of_mem_head? hc),
      fun c hc => h.clean c (List.mem_of_mem_getLast? hc)⟩

omit [DecidableEq C] in
/-- The highest name of the shape is what the script selects, unless it is
ignored or outdone. -/
theorem HighestShaped.read_iff {name : Text}
    (h : HighestShaped (tagList tags) name) :
    HighestValid (namesRead tags) name ↔ Valid name ∧ ¬ Outdone tags name := by
  constructor
  · rintro ⟨-, hvalid, hbound⟩
    refine ⟨hvalid, ?_⟩
    rintro ⟨other, hother, hv, hlt⟩
    exact absurd (hbound other hother hv) (not_le_of_gt hlt)
  · rintro ⟨hvalid, houtdone⟩
    refine ⟨hvalid.mem_namesRead h.1, hvalid, fun other hother hv => ?_⟩
    by_contra hle
    exact houtdone ⟨other, hother, hv, not_le.mp hle⟩

/-- The two notions of the highest tag agree on a commit exactly where
nothing misleads them. -/
theorem highest_tags_agree_iff (hsort : VersionSort sortV)
    (hgit : git listTags = success (printLines (tagList tags)))
    (hnodup : (tagList tags).Nodup) :
    TagsAgree sortV git tags sha ↔ ¬ Misled tags sha := by
  constructor
  · rintro ⟨hdecides, hreuses⟩ ⟨name, hhighest, hbad, hon⟩
    have hcarries : Carries tags sha name := by
      rcases hon with hon | ⟨valid, hvalid, hon⟩
      · exact hon
      · have htagged := hdecides.mpr ⟨valid, (latestTag_iff hgit).mpr hvalid, hon⟩
        obtain ⟨found, hfound, hon⟩ :=
          (guardStep_tagged_iff hsort hnodup).mp htagged
        rwa [hhighest.unique hfound]
    have htagged : guardStep sortV tags sha = .tagged :=
      (guardStep_tagged_iff hsort hnodup).mpr ⟨name, hhighest, hcarries⟩
    have hlatest := hreuses htagged
    rw [existingStep_of_highest hsort hhighest hcarries] at hlatest
    obtain ⟨hvalid, houtdone⟩ :=
      hhighest.read_iff.mp ((latestTag_iff hgit).mp hlatest.symm)
    rcases hbad with hinvalid | hout
    · exact hinvalid hvalid
    · exact houtdone hout
  · intro hclear
    have hread : ∀ {name}, HighestShaped (tagList tags) name →
        (Carries tags sha name
          ∨ ∃ valid, HighestValid (namesRead tags) valid
            ∧ Carries tags sha valid) →
        latestTag git = some name := by
      intro name hhighest hon
      by_contra hne
      apply hclear
      refine ⟨name, hhighest, ?_, hon⟩
      by_contra hgood
      rw [not_or, not_not] at hgood
      exact hne ((latestTag_iff hgit).mpr (hhighest.read_iff.mpr hgood))
    constructor
    case decides =>
      rw [guardStep_tagged_iff hsort hnodup]
      constructor
      · rintro ⟨name, hhighest, hcarries⟩
        exact ⟨name, hread hhighest (Or.inl hcarries), hcarries⟩
      · rintro ⟨name, hlatest, hcarries⟩
        have hvalid := (latestTag_iff hgit).mp hlatest
        cases hlast : keepLast isVersionTag (sortV (tagList tags)) with
        | none =>
            have := keepLast_none_iff.mp hlast name
              ((hsort.perm _).mem_iff.mpr hcarries.mem_tagList)
            rw [hvalid.2.1.shaped] at this
            cases this
        | some found =>
            have hfound := (keepLast_sortV_iff hsort).mp hlast
            have heq := hread hfound (Or.inr ⟨name, hvalid, hcarries⟩)
            rw [hlatest, Option.some.injEq] at heq
            exact ⟨name, heq ▸ hfound, hcarries⟩
    case reuses =>
      intro htagged
      obtain ⟨name, hhighest, hcarries⟩ :=
        (guardStep_tagged_iff hsort hnodup).mp htagged
      rw [existingStep_of_highest hsort hhighest hcarries,
        hread hhighest (Or.inl hcarries)]

/-- A version sort. -/
def sortByVersion (names : List Text) : List Text :=
  names.insertionSort fun a b => versionKey a ≤ versionKey b

theorem versionSort_sortByVersion : VersionSort sortByVersion where
  perm names := List.perm_insertionSort _ names
  ordered names := by
    apply (List.pairwise_insertionSort _ names).imp
    intro a b hab _ _
    exact hab

/-- A git that lists tags. -/
def lists (tags : List (TagRef C)) : Git := fun _ =>
  success (printLines (tagList tags))

/-- `v1.2.0` on commit 0, and a tag above it that is ignored. -/
def oversized : List (TagRef Nat) :=
  [⟨"v1.2.0".toList, 0⟩, ⟨"v70000.0.0".toList, 1⟩]

theorem highest_tags_agree_iff_oversized :
    TagsAgree sortByVersion (lists oversized) oversized 0
      ↔ ¬ Misled oversized 0 :=
  highest_tags_agree_iff versionSort_sortByVersion rfl (by decide)

/-- `v1.2.0` on commit 0, and a name above it that ends with a no-break
space. -/
def spaced : List (TagRef Nat) :=
  [⟨"v1.2.0".toList, 0⟩, ⟨"v1.5.0".toList ++ [Char.ofNat 0xA0], 1⟩]

/-- With an ignored tag above its own the job would tag commit 0 a second
time; with a name that loses its last character it would not, and the
script would count from a tag that does not exist. -/
theorem oversized_disagree :
    ¬ TagsAgree sortByVersion (lists oversized) oversized 0
      ∧ ¬ TagsAgree sortByVersion (lists spaced) spaced 0 := by
  constructor
  · intro h
    have hguard : guardStep sortByVersion oversized 0 = .tag := by
      decide
    have hlatest : latestTag (lists oversized) = some "v1.2.0".toList := by
      decide
    have htagged := h.decides.mpr ⟨_, hlatest, by simp [Carries, oversized]⟩
    rw [hguard] at htagged
    cases htagged
  · intro h
    have hguard : guardStep sortByVersion spaced 0 = .tagged := by
      decide
    have hlatest : latestTag (lists spaced) = some "v1.5.0".toList := by
      decide
    have hreused := h.reuses hguard
    rw [hlatest] at hreused
    exact absurd hreused (by decide)

end RestifyCapl.Ci
