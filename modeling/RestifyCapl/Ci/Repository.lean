/-
A git repository, as scripts/ci/changelog.ps1 asks about it. The script
runs git with arguments and reads what it prints, so git is a function
from arguments to a result here, a parameter; `Git.Serves` is what its
commands print on a repository. `Repository.git` is a git that does.

A repository lists its commits with every commit before its parents, so
that the walks of `git log` are recursions over the list.
-/
import RestifyCapl.Ci.TagRelease
import Mathlib.Data.List.Nodup
import Mathlib.Data.List.ProdSigma

namespace RestifyCapl.Ci

structure Commit where
  sha : Text
  parents : List Text
  tree : Text
  subject : Text
deriving DecidableEq

/-- `[0-9a-f]`. -/
def isHex (c : Char) : Bool := isAsciiDigit c || inRange 97 102 c

/-- A full commit hash. -/
def IsSha (t : Text) : Prop := t.length = 40 ∧ ∀ c ∈ t, isHex c = true

instance (t : Text) : Decidable (IsSha t) :=
  decidable_of_iff (t.length = 40 ∧ t.all isHex = true) (by simp [IsSha])

/-- What `Split-Words` keeps in one piece. -/
def IsWord (t : Text) : Prop := t ≠ [] ∧ ∀ c ∈ t, isWordBlank c = false

instance (t : Text) : Decidable (IsWord t) :=
  decidable_of_iff (t ≠ [] ∧ t.all (fun c => !isWordBlank c) = true)
    (by simp [IsWord])

/-- Every commit stands before its parents. -/
def ParentsLater : List Commit → Prop
  | [] => True
  | c :: rest =>
      (∀ p ∈ c.parents, p ∈ rest.map Commit.sha) ∧ ParentsLater rest

instance decidableParentsLater :
    (commits : List Commit) → Decidable (ParentsLater commits)
  | [] => .isTrue trivial
  | c :: rest =>
      have := decidableParentsLater rest
      inferInstanceAs (Decidable
        ((∀ p ∈ c.parents, p ∈ rest.map Commit.sha) ∧ ParentsLater rest))

/-- A repository with a branch `origin/main`. A subject is one line; git
allows no blank in the name of a tag. -/
structure Repository where
  commits : List Commit
  tip : Text
  tags : List (TagRef Text)
  distinct : (commits.map Commit.sha).Nodup
  shas : ∀ c ∈ commits, IsSha c.sha
  parentsLater : ParentsLater commits
  oneLine : ∀ c ∈ commits, '\n' ∉ c.subject
  tipHeld : tip ∈ commits.map Commit.sha
  tagsDistinct : (tagList tags).Nodup
  tagsHeld : ∀ t ∈ tags, t.commit ∈ commits.map Commit.sha
  tagWords : ∀ t ∈ tags, IsWord t.name

-- =============================================================== the walks

/-- `--first-parent`, from a commit on. -/
def firstParents : List Commit → Option Text → List Commit
  | [], _ => []
  | c :: rest, next =>
      if next = some c.sha then c :: firstParents rest c.parents.head?
      else firstParents rest next

/-- The commits that can be reached from some. -/
def reachable : List Commit → List Text → List Text
  | [], _ => []
  | c :: rest, seeds =>
      if c.sha ∈ seeds then c.sha :: reachable rest (c.parents ++ seeds)
      else reachable rest seeds

namespace Repository

/-- `<excluded>..<sha>`, newest first. -/
def range (repo : Repository) (excluded sha : Text) : List Commit :=
  (firstParents repo.commits (some sha)).filter fun c =>
    decide (c.sha ∉ reachable repo.commits [excluded])

/-- A commit is an ancestor of another, or the same. -/
def IsAncestor (repo : Repository) (sha descendant : Text) : Prop :=
  sha ∈ reachable repo.commits [descendant]

end Repository

-- ================================================================= commands

/-- What `Invoke-Git` returns. -/
structure GitResult where
  code : Nat
  out : Text
  err : Text

/-- git, from its arguments. -/
abbrev Git := List Text → GitResult

def success (out : Text) : GitResult := ⟨0, out, []⟩

/-- Lines, each with its end. -/
def printLines (ls : List Text) : Text := ls.flatMap fun l => l ++ ['\n']

def revParseTip : List Text := ["rev-parse".toList, "origin/main".toList]

def listTags : List Text := ["tag".toList, "--list".toList]

def listPointsAt (sha : Text) : List Text :=
  ["tag".toList, "--points-at".toList, sha]

def logSubject (sha : Text) : List Text :=
  ["log".toList, "-1".toList, "--format=%s".toList, sha]

def logInfo (sha : Text) : List Text :=
  ["log".toList, "-1".toList, "--format=%P%x09%T".toList, sha]

def logRange (tag sha : Text) : List Text :=
  ["log".toList, "--first-parent".toList, "--format=%H%x09%s".toList,
    tag ++ "..".toList ++ sha]

/-- `%H%x09%s`. -/
def Commit.row (c : Commit) : Text := c.sha ++ '\t' :: c.subject

/-- `%P%x09%T`. -/
def Commit.info (c : Commit) : Text :=
  [' '].intercalate c.parents ++ '\t' :: c.tree

/-- What git prints of a repository. -/
structure Git.Serves (git : Git) (repo : Repository) : Prop where
  tip : git revParseTip = success (printLines [repo.tip])
  tags : git listTags = success (printLines (tagList repo.tags))
  pointsAt : ∀ sha, git (listPointsAt sha)
    = success (printLines (pointsAt repo.tags sha))
  subject : ∀ c ∈ repo.commits,
    git (logSubject c.sha) = success (printLines [c.subject])
  info : ∀ c ∈ repo.commits,
    git (logInfo c.sha) = success (printLines [c.info])
  range : ∀ tag ∈ repo.tags, ∀ c ∈ repo.commits,
    git (logRange tag.name c.sha)
      = success (printLines ((repo.range tag.commit c.sha).map Commit.row))

/-- What git says of a revision it does not know. -/
def unknownRevision : GitResult := ⟨128, [], "unknown revision".toList⟩

namespace Repository

def find (repo : Repository) (sha : Text) : Option Commit :=
  repo.commits.find? fun c => c.sha == sha

/-- The tag and the commit a range names. -/
def findRange (repo : Repository) (text : Text) :
    Option (TagRef Text × Commit) :=
  (repo.tags ×ˢ repo.commits).find? fun p =>
    text == p.1.name ++ "..".toList ++ p.2.sha

/-- A git on a repository. -/
def git (repo : Repository) : Git := fun args =>
  if args = revParseTip then success (printLines [repo.tip])
  else if args = listTags then success (printLines (tagList repo.tags))
  else
    match args with
    | [_, _, sha] => success (printLines (pointsAt repo.tags sha))
    | [_, flag, what, last] =>
        if flag = "-1".toList then
          match repo.find last with
          | none => unknownRevision
          | some c =>
              if what = "--format=%s".toList then
                success (printLines [c.subject])
              else success (printLines [c.info])
        else
          match repo.findRange last with
          | none => unknownRevision
          | some (tag, c) =>
              success (printLines
                ((repo.range tag.commit c.sha).map Commit.row))
    | _ => unknownRevision

theorem find_sha {repo : Repository} {c : Commit} (hc : c ∈ repo.commits) :
    repo.find c.sha = some c := by
  unfold find
  cases hfind : repo.commits.find? fun d => d.sha == c.sha with
  | none => exact absurd (List.find?_eq_none.mp hfind c hc) (by simp)
  | some d =>
      have hsha : d.sha = c.sha := by simpa using List.find?_some hfind
      rw [List.inj_on_of_nodup_map repo.distinct
        (List.mem_of_find?_eq_some hfind) hc hsha]

/-- The hash at its end has a fixed length, so a range names one tag and
one commit. -/
theorem findRange_eq {repo : Repository} {tag : TagRef Text} {c : Commit}
    (htag : tag ∈ repo.tags) (hc : c ∈ repo.commits) :
    repo.findRange (tag.name ++ "..".toList ++ c.sha) = some (tag, c) := by
  unfold findRange
  cases hfind : (repo.tags ×ˢ repo.commits).find? fun p =>
      tag.name ++ "..".toList ++ c.sha == p.1.name ++ "..".toList ++ p.2.sha with
  | none =>
      have hmem : (tag, c) ∈ repo.tags ×ˢ repo.commits :=
        List.mem_product.mpr ⟨htag, hc⟩
      exact absurd (List.find?_eq_none.mp hfind _ hmem) (by simp)
  | some p =>
      obtain ⟨tag', c'⟩ := p
      obtain ⟨htag', hc'⟩ :=
        List.mem_product.mp (List.mem_of_find?_eq_some hfind)
      have hfound := List.find?_some hfind
      have heq := eq_of_beq hfound
      have hlength : c.sha.length = c'.sha.length :=
        (repo.shas c hc).1.trans (repo.shas c' hc').1.symm
      obtain ⟨hname, hsha⟩ := List.append_inj' heq hlength
      rw [List.append_left_inj] at hname
      rw [List.inj_on_of_nodup_map repo.tagsDistinct htag htag' hname,
        List.inj_on_of_nodup_map repo.distinct hc hc' hsha]

theorem git_serves (repo : Repository) : repo.git.Serves repo where
  tip := if_pos rfl
  tags := by
    unfold git
    rw [if_neg (by decide), if_pos rfl]
  pointsAt sha := by
    unfold git
    rw [if_neg (by simp [listPointsAt, revParseTip]),
      if_neg (by simp [listPointsAt, listTags])]
    rfl
  subject c hc := by
    unfold git
    rw [if_neg (by simp [logSubject, revParseTip]),
      if_neg (by simp [logSubject, listTags])]
    simp [logSubject, find_sha hc]
  info c hc := by
    unfold git
    rw [if_neg (by simp [logInfo, revParseTip]),
      if_neg (by simp [logInfo, listTags])]
    simp [logInfo, find_sha hc]
  range tag htag c hc := by
    unfold git
    rw [if_neg (by simp [logRange, revParseTip]),
      if_neg (by simp [logRange, listTags])]
    have hrange := findRange_eq htag hc
    unfold logRange
    dsimp only
    rw [if_neg (by decide), hrange]

end Repository

end RestifyCapl.Ci
