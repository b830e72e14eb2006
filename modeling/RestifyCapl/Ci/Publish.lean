/-
Job `publish` of .github/workflows/release.yml at work on one tag, over the
releases of the tag that GitHub holds.

The runs for a tag are in one concurrency group, which cancels none, so one
job at a time is at work; a run can be started again, also with other files
in `dist`. A job may stop after any step, and in the middle of its uploads.
Others may delete drafts of the tag, and do nothing else to its releases.

What GitHub answers comes with the action: `missed` are the drafts a listing
leaves out, which it does for a draft just made. `sha256` is the digest that
`sha256sum` prints of a file.
-/
import RestifyCapl.Ci.Validate
import RestifyCapl.Lib.Machine
import Mathlib.Data.List.Lex
import Mathlib.Data.List.Sort

namespace RestifyCapl.Ci

open Lib

-- ================================================================== the files

structure Asset where
  name : Text
  data : Text
deriving DecidableEq

def x86Name : Text := "restifycapl-x86.dll".toList
def x64Name : Text := "restifycapl-x64.dll".toList
def sumsName : Text := "SHA256SUMS".toList

/-- The most characters of a release's notes. -/
def maxNotes : Nat := 125000

/-- What job `assemble` leaves in `dist`. -/
structure Dist where
  x86 : Text
  x64 : Text
  notes : Text
  fits : notes.length ≤ maxNotes

/-- A line of `sha256sum`. -/
def sumLine (sha256 : Text → Text) (file : Asset) : Text :=
  sha256 file.data ++ ' ' :: ' ' :: file.name

namespace Dist

def dlls (dist : Dist) : List Asset :=
  [⟨x86Name, dist.x86⟩, ⟨x64Name, dist.x64⟩]

/-- `sha256sum restifycapl-x86.dll restifycapl-x64.dll > SHA256SUMS`. -/
def sums (sha256 : Text → Text) (dist : Dist) : Text :=
  printLines (dist.dlls.map (sumLine sha256))

/-- The files of `gh release create`. -/
def assets (sha256 : Text → Text) (dist : Dist) : List Asset :=
  dist.dlls ++ [⟨sumsName, dist.sums sha256⟩]

end Dist

def isHexDigit (c : Char) : Bool := isHex c || inRange 65 70 c

/-- A line that `sha256sum -c` takes: the digest and the name. Lines of
other forms that it takes too are not among those it prints. -/
def readSum (line : Text) : Option (Text × Text) :=
  let digest := line.take 64
  if digest.length = 64 ∧ digest.all isHexDigit = true then
    match line.drop 64 with
    | ' ' :: mark :: name =>
        if (mark = ' ' ∨ mark = '*') ∧ name ≠ [] then some (digest, name)
        else none
    | _ => none
  else none

def checkSum (sha256 : Text → Text) (files : List Asset)
    (sum : Text × Text) : Bool :=
  match files.find? fun file => file.name == sum.2 with
  | none => false
  | some file => sha256 file.data == sum.1.map Char.toLower

/-- `sha256sum -c SHA256SUMS` among the files. -/
def checkSums (sha256 : Text → Text) (files : List Asset) : Bool :=
  match files.find? fun file => file.name == sumsName with
  | none => false
  | some file =>
      let sums := (lines file.data).filterMap readSum
      !sums.isEmpty && sums.all (checkSum sha256 files)

-- =================================================================== releases

/-- A release of the tag. -/
structure GhRelease where
  id : Nat
  draft : Bool
  body : Text
  assets : List Asset
deriving DecidableEq

namespace GhRelease

/-- An upload. -/
def addAsset (asset : Asset) (r : GhRelease) : GhRelease :=
  { r with assets := r.assets ++ [asset] }

@[simp] theorem addAsset_id (asset : Asset) (r : GhRelease) :
    (r.addAsset asset).id = r.id := rfl

@[simp] theorem addAsset_draft (asset : Asset) (r : GhRelease) :
    (r.addAsset asset).draft = r.draft := rfl

/-- `--draft=false`. -/
def setPublic (r : GhRelease) : GhRelease := { r with draft := false }

@[simp] theorem setPublic_id (r : GhRelease) : r.setPublic.id = r.id := rfl

end GhRelease

/-- The order of jq's `sort`. -/
def sortNames (names : List Text) : List Text :=
  names.insertionSort fun a b => a ≤ b

/-- The checks of step `Verify the draft` on what the listing says. -/
def checkDraft (release : GhRelease) : Except Text Unit :=
  let names := [' '].intercalate (sortNames (release.assets.map Asset.name))
  if names ≠ "SHA256SUMS restifycapl-x64.dll restifycapl-x86.dll".toList then
    .error ("the draft must carry exactly three assets, found: ".toList
      ++ names)
  else if maxNotes < release.body.length then
    .error ("the draft notes are ".toList ++ format release.body.length
      ++ " characters, the limit is 125000".toList)
  else .ok ()

-- ================================================================== the system

/-- Where the job is. `left` are the uploads that are not done, `attempt`
is the listing that comes next, and `draft` what the listing said. -/
inductive PublishJob where
  | free
  | downloaded (dist : Dist)
  | unpublished (dist : Dist)
  | deleting (dist : Dist) (ids : List Nat)
  | uploading (dist : Dist) (id : Nat) (left : List Asset)
  | looking (dist : Dist) (attempt : Nat)
  | checking (dist : Dist) (draft : GhRelease)
  | verified (dist : Dist)

structure Publishing where
  releases : List GhRelease
  nextId : Nat
  job : PublishJob

inductive PublishAction where
  | start (dist : Dist)
  | require (lookup : GhAnswer)
  | list (missed : List Nat)
  | delete
  | create
  | upload (k : Nat)
  | look (missed : List Nat)
  | check
  | makePublic (id : Nat)
  | deleteByHand (id : Nat)
  | stop

/-- What a step came to. -/
inductive PublishAnswer where
  | done
  | notListed
  | failed (err : Text)

namespace Publishing

def isPublic (s : Publishing) : Bool := s.releases.any fun r => !r.draft

/-- What the tags endpoint can answer. -/
def Tells (s : Publishing) : GhAnswer → Bool
  | .ok _ => s.isPublic
  | .failed _ err =>
      !contains "HTTP 404".toList (err.rdropWhile (· == '\n')) || !s.isPublic

/-- The drafts of a listing. -/
def drafts (s : Publishing) (missed : List Nat) : List GhRelease :=
  s.releases.filter fun r => r.draft && !missed.contains r.id

def findDraft (s : Publishing) (id : Nat) : Option GhRelease :=
  s.releases.find? fun r => r.draft && r.id == id

def remove (s : Publishing) (id : Nat) : List GhRelease :=
  s.releases.filter fun r => !(r.draft && r.id == id)

/-- The draft `id` is changed. -/
def change (s : Publishing) (id : Nat) (f : GhRelease → GhRelease) :
    List GhRelease :=
  s.releases.map fun r => if r.draft && r.id == id then f r else r

/-- The job ends. -/
def fail (s : Publishing) (err : Text) : PublishAnswer × Publishing :=
  (.failed err, { s with job := .free })

/-- After an upload. -/
def afterUpload (dist : Dist) (id : Nat) (left : List Asset) : PublishJob :=
  if left.isEmpty then .looking dist 1 else .uploading dist id left

/-- The begin of the error, before the drafts that are listed. -/
def countError (name : Text) (count : Nat) : Text :=
  "expected exactly one draft for ".toList ++ name ++ ", found ".toList
    ++ format count

/-- One listing of step `Verify the draft`. -/
def looked (name : Text) (s : Publishing) (dist : Dist) (attempt : Nat) :
    List GhRelease → PublishAnswer × Publishing
  | [] =>
      if attempt < 10 then
        (.notListed, { s with job := .looking dist (attempt + 1) })
      else s.fail (countError name 0)
  | [draft] =>
      match checkDraft draft with
      | .error e => s.fail e
      | .ok () => (.done, { s with job := .checking dist draft })
  | listed => s.fail (countError name listed.length)

/-- `gh release edit`: of the published release, or of a draft of the
tag. -/
def edited (s : Publishing) (id : Nat) : Option (PublishAnswer × Publishing) :=
  if s.isPublic then some (.done, { s with job := .free })
  else if s.releases.isEmpty then some (s.fail [])
  else
    match s.findDraft id with
    | none => none
    | some _ =>
        some (.done, { s with
          releases := s.change id GhRelease.setPublic
          job := .free })

/-- One step on the tag `name`. -/
def step (sha256 : Text → Text) (name : Text) (s : Publishing) :
    PublishAction → Option (PublishAnswer × Publishing)
  | .start dist =>
      match s.job with
      | .free => some (.done, { s with job := .downloaded dist })
      | _ => none
  | .require lookup =>
      match s.job with
      | .downloaded dist =>
          if s.Tells lookup then
            match checkUnpublished name lookup with
            | .error e => some (s.fail e)
            | .ok () => some (.done, { s with job := .unpublished dist })
          else none
      | _ => none
  | .list missed =>
      match s.job with
      | .unpublished dist =>
          let ids := (s.drafts missed).map GhRelease.id
          some (.done, { s with job := .deleting dist ids })
      | _ => none
  | .delete =>
      match s.job with
      | .deleting dist (id :: ids) =>
          match s.findDraft id with
          | none => some (s.fail [])
          | some _ =>
              some (.done, { s with
                releases := s.remove id
                job := .deleting dist ids })
      | _ => none
  | .create =>
      match s.job with
      | .deleting dist [] =>
          some (.done, {
            releases := ⟨s.nextId, true, dist.notes, []⟩ :: s.releases
            nextId := s.nextId + 1
            job := .uploading dist s.nextId (dist.assets sha256) })
      | _ => none
  | .upload k =>
      match s.job with
      | .uploading dist id left =>
          match left[k]?, s.findDraft id with
          | none, _ => none
          | some _, none => some (s.fail [])
          | some asset, some _ =>
              some (.done, { s with
                releases := s.change id (GhRelease.addAsset asset)
                job := afterUpload dist id (left.eraseIdx k) })
      | _ => none
  | .look missed =>
      match s.job with
      | .looking dist attempt =>
          some (s.looked name dist attempt (s.drafts missed))
      | _ => none
  | .check =>
      match s.job with
      | .checking dist draft =>
          match s.findDraft draft.id with
          | none => some (s.fail [])
          | some r =>
              if checkSums sha256 r.assets then
                some (.done, { s with job := .verified dist })
              else some (s.fail [])
      | _ => none
  | .makePublic id =>
      match s.job with
      | .verified _ => s.edited id
      | _ => none
  | .deleteByHand id =>
      match s.findDraft id with
      | none => none
      | some _ => some (.done, { s with releases := s.remove id })
  | .stop =>
      match s.job with
      | .free => none
      | _ => some (s.fail [])

end Publishing

/-- The runs of the job, over releases whose ids differ. -/
def publishing (sha256 : Text → Text) (name : Text) :
    Machine Publishing PublishAction PublishAnswer where
  start s := s.job = .free ∧ (s.releases.map GhRelease.id).Nodup
    ∧ ∀ r ∈ s.releases, r.id < s.nextId
  step := Publishing.step sha256 name

end RestifyCapl.Ci
