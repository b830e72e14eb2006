/-
Job `tag` of .github/workflows/tag-release.yml, as far as it looks at the
tags that exist: step `guard`, which decides whether the commit is tagged
already, and step `existing`, which finds the tag to reuse.

`sort -V` is a parameter. The job reads its output line by line and
keeps the last name of the shape it looks for.
-/
import RestifyCapl.Ci.Tags
import Mathlib.Data.Char
import Mathlib.Data.List.Lex

namespace RestifyCapl.Ci

open Lib

/-- A tag and the commit it points at, through any tag object. -/
structure TagRef (C : Type) where
  name : Text
  commit : C

/-- `^v[0-9]+\.[0-9]+\.[0-9]+$`, the pattern of `$ReTagShape`. -/
def isVersionTag (name : Text) : Bool := (tagShape name).isSome

/-- `git tag --list`. -/
def tagList {C : Type} (tags : List (TagRef C)) : List Text :=
  tags.map TagRef.name

section Job

variable {C : Type} [DecidableEq C]

/-- `git tag --points-at`. -/
def pointsAt (tags : List (TagRef C)) (sha : C) : List Text :=
  (tags.filter fun tag => tag.commit = sha).map TagRef.name

/-- `git rev-parse refs/tags/<name>^{commit}`. -/
def tagCommit (tags : List (TagRef C)) (name : Text) : Option C :=
  (tags.find? fun tag => tag.name == name).map TagRef.commit

/-- The answer of step `guard`. -/
inductive Outcome where
  | tag
  | tagged
deriving DecidableEq, Repr

variable (sortV : List Text → List Text)

/-- Step `guard`. -/
def guardStep (tags : List (TagRef C)) (sha : C) : Outcome :=
  match keepLast isVersionTag (sortV (tagList tags)) with
  | none => .tag
  | some highest =>
      if tagCommit tags highest = some sha then .tagged else .tag

/-- Step `existing`: the tag to reuse. -/
def existingStep (tags : List (TagRef C)) (sha : C) : Option Text :=
  keepLast isVersionTag (sortV (pointsAt tags sha))

end Job

-- ================================================================== sort -V

/-- The fields of a version-shaped name, as numbers. -/
def shapedVersion (name : Text) : Version :=
  match tagShape name with
  | none => version 0 0 0
  | some (major, minor, patch) =>
      version (toInt major) (toInt minor) (toInt patch)

/-- The version order of names: by the numbers in them, and byte by byte
where these are equal. -/
def versionKey (name : Text) : Version ×ₗ Text :=
  toLex (shapedVersion name, name)

/-- What is documented of `sort -V`, on names of the shape. -/
structure VersionSort (sortV : List Text → List Text) : Prop where
  perm : ∀ names, (sortV names).Perm names
  ordered : ∀ names, (sortV names).Pairwise fun a b =>
    isVersionTag a = true → isVersionTag b = true →
      versionKey a ≤ versionKey b

end RestifyCapl.Ci
