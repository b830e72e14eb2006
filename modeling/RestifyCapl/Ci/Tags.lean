/-
Version tags, as scripts/ci/changelog.ps1 reads them: the shape of a
tag's name, the rules under which a shaped tag is ignored, and
`Get-LatestVersion`, the highest of the others.
-/
import RestifyCapl.Ci.Text
import RestifyCapl.Lib.Greatest
import Mathlib.Data.Prod.Lex

namespace RestifyCapl.Ci

open Lib

/-- `$MaxField`. -/
def maxField : Nat := 65535

/-- Three fields, compared from left to right. -/
abbrev Version := Nat ×ₗ Nat ×ₗ Nat

def version (major minor patch : Nat) : Version :=
  toLex (major, toLex (minor, patch))

/-- `[0-9]+`. -/
def isNumber (t : Text) : Bool := !t.isEmpty && t.all isAsciiDigit

/-- `$ReTagShape`, and its groups. A name is a word of `Split-Words`, so
that `$` has no last line feed to stop before. -/
def tagShape (name : Text) : Option (Text × Text × Text) :=
  match name with
  | 'v' :: rest =>
      match rest.splitOn '.' with
      | [major, minor, patch] =>
          if isNumber major && isNumber minor && isNumber patch then
            some (major, minor, patch)
          else none
      | _ => none
  | _ => none

def hasLeadingZero (field : Text) : Bool :=
  decide (field.length > 1) && field.head? == some '0'

def aboveMaxField (field : Text) : Bool :=
  decide (field.length > 5) || decide (toInt field > maxField)

/-- What `Get-LatestVersion` makes of a tag: a version, or nothing and a
warning. -/
def readTag (name : Text) : Option Version × Option Text :=
  match tagShape name with
  | none => (none, none)
  | some (major, minor, patch) =>
      if [major, minor, patch].any hasLeadingZero then
        (none, some ("ignored tag ".toList ++ name
          ++ ": a field has a leading zero".toList))
      else if [major, minor, patch].any aboveMaxField then
        (none, some ("ignored tag ".toList ++ name
          ++ ": a field is above ".toList ++ format maxField))
      else (some (version (toInt major) (toInt minor) (toInt patch)), none)

/-- `Get-LatestVersion`: the best version, and what goes to stderr. -/
def getLatestVersion (names : List Text) : Option Version × List Text :=
  (keepBest (fun name => (readTag name).1) names,
    names.filterMap fun name => (readTag name).2)

/-- `'v{0}.{1}.{2}' -f`. -/
def tagName (v : Version) : Text :=
  'v' :: (format (ofLex v).1 ++ '.' :: (format (ofLex (ofLex v).2).1
    ++ '.' :: format (ofLex (ofLex v).2).2))

-- =============================================================== the names

theorem isNumber_iff {t : Text} :
    isNumber t = true ↔ t ≠ [] ∧ ∀ c ∈ t, isAsciiDigit c = true := by
  simp [isNumber]

/-- A shaped name is its fields between dots. -/
theorem tagShape_some {name major minor patch : Text}
    (h : tagShape name = some (major, minor, patch)) :
    name = 'v' :: (major ++ '.' :: (minor ++ '.' :: patch))
      ∧ isNumber major = true ∧ isNumber minor = true
      ∧ isNumber patch = true := by
  unfold tagShape at h
  split at h
  next rest =>
    split at h
    next a b c hsplit =>
      split at h
      next hnumbers =>
        cases h
        simp only [Bool.and_eq_true] at hnumbers
        refine ⟨?_, hnumbers.1.1, hnumbers.1.2, hnumbers.2⟩
        have hjoin : ['.'].intercalate (rest.splitOn '.') = rest :=
          List.intercalate_splitOn '.'
        rw [hsplit] at hjoin
        rw [← hjoin]
        simp [List.intercalate]
      next => cases h
    next => cases h
  next => cases h

/-- A tag that is not ignored is the name of its version. -/
theorem readTag_some {name : Text} {v : Version}
    (h : (readTag name).1 = some v) : name = tagName v := by
  unfold readTag at h
  split at h
  next => cases h
  next major minor patch hshape =>
    obtain ⟨hname, hmajor, hminor, hpatch⟩ := tagShape_some hshape
    split at h
    next => cases h
    next hzero =>
      split at h
      next => cases h
      next hmax =>
        cases h
        simp only [List.any_cons, List.any_nil, Bool.or_false,
          Bool.or_eq_true, not_or, hasLeadingZero, Bool.and_eq_true,
          decide_eq_true_eq, beq_iff_eq, not_and] at hzero
        obtain ⟨hmajor0, hminor0, hpatch0⟩ := hzero
        rw [isNumber_iff] at hmajor hminor hpatch
        rw [hname]
        unfold tagName version
        simp only [ofLex_toLex]
        rw [format_toInt hmajor.2 hmajor.1 hmajor0,
          format_toInt hminor.2 hminor.1 hminor0,
          format_toInt hpatch.2 hpatch.1 hpatch0]

end RestifyCapl.Ci
