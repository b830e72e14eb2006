/-
Each change is released once. A release covers what `Get-RangeLog` reads for
its cut: the range from the last tag to the base, the commit under the one
that is tagged. With the version tags along main (`AlongMain`) these ranges
are the pieces of main between one tagged commit and the next, so that a
commit after the first tag that is not a tagged one itself is in the range
of one release, or else among those since the last.

Base layer: a range on main as a piece of it (`mem_range_main`), which
rests on what can be reached from a commit of main being the rest of main
from there (`reachable_main`); and what `Get-RangeLog` reads, whatever the
trimming takes from the last row, are the commits of the range
(`getRangeLog_shas`).
-/
import RestifyCapl.Ci.Proofs.AlongMain
import RestifyCapl.Lib.Split
import Mathlib.Data.Set.Finite.Lemmas
import Mathlib.Data.Set.Finite.List

namespace RestifyCapl.Ci

open Lib

variable {repo : Repository}

-- =========================================================== order in a list

/-- Where nothing is listed twice, an ordered pair is a pair of ordered
positions. -/
theorem pair_sublist_iff {α : Type} [BEq α] [LawfulBEq α] {l : List α}
    (hl : l.Nodup) {a b : α} :
    [a, b].Sublist l ↔ b ∈ l ∧ l.idxOf a < l.idxOf b := by
  induction l with
  | nil => simp
  | cons x l ih =>
      rw [List.nodup_cons] at hl
      by_cases hax : a = x
      · subst hax
        rw [List.idxOf_cons_self]
        constructor
        · intro h
          have hb : b ∈ l := by
            cases h with
            | cons _ h => exact h.subset (by simp)
            | cons_cons _ h => exact h.subset (by simp)
          have hne : a ≠ b := fun heq => hl.1 (heq ▸ hb)
          rw [List.idxOf_cons_ne _ hne]
          exact ⟨List.mem_cons_of_mem _ hb, Nat.succ_pos _⟩
        · rintro ⟨hb, hlt⟩
          rcases List.mem_cons.mp hb with rfl | hb
          · rw [List.idxOf_cons_self] at hlt
            exact absurd hlt (Nat.lt_irrefl 0)
          · exact (List.singleton_sublist.mpr hb).cons_cons a
      · have hsub : [a, b].Sublist (x :: l) ↔ [a, b].Sublist l := by
          constructor
          · intro h
            cases h with
            | cons _ h => exact h
            | cons_cons => exact absurd rfl hax
          · exact fun h => h.cons x
        rw [hsub, ih hl.2, List.idxOf_cons_ne _ (Ne.symm hax)]
        by_cases hbx : b = x
        · subst hbx
          rw [List.idxOf_cons_self]
          constructor
          · exact fun h => absurd h.1 hl.1
          · exact fun h => absurd h.2 (Nat.not_lt_zero _)
        · rw [List.idxOf_cons_ne _ (Ne.symm hbx), List.mem_cons,
            Nat.succ_lt_succ_iff]
          exact ⟨fun h => ⟨Or.inr h.1, h.2⟩,
            fun h => ⟨h.1.resolve_left hbx, h.2⟩⟩

-- =============================================================== the walks

/-- From one of its commits on, a first-parent walk goes on as before. -/
theorem firstParents_suffix {commits : List Commit} {next : Option Text}
    (hnodup : (commits.map Commit.sha).Nodup) {c : Commit}
    (hc : c ∈ firstParents commits next) :
    firstParents commits (some c.sha) <:+ firstParents commits next := by
  induction commits generalizing next with
  | nil => cases hc
  | cons d rest ih =>
      rw [List.map_cons, List.nodup_cons] at hnodup
      have hrest : ∀ {next}, c ∈ firstParents rest next →
          firstParents (d :: rest) (some c.sha)
            = firstParents rest (some c.sha) := by
        intro next hmem
        have hne : some c.sha ≠ some d.sha := by
          intro heq
          injection heq with heq
          apply hnodup.1
          rw [← heq]
          exact List.mem_map_of_mem
            ((firstParents_sublist rest next).subset hmem)
        unfold firstParents
        rw [if_neg hne]
        cases rest <;> rfl
      by_cases hnext : next = some d.sha
      · have hstart : firstParents (d :: rest) next
            = d :: firstParents rest d.parents.head? := by
          rw [firstParents, if_pos hnext]
        rw [hstart] at hc ⊢
        rcases List.mem_cons.mp hc with rfl | hmem
        · rw [firstParents, if_pos rfl]
        · rw [hrest hmem]
          exact (ih hnodup.2 hmem).trans (List.suffix_cons d _)
      · have hskip : firstParents (d :: rest) next
            = firstParents rest next := by
          rw [firstParents, if_neg hnext]
        rw [hskip] at hc ⊢
        rw [hrest hc]
        exact ih hnodup.2 hc

theorem firstParents_none (commits : List Commit) :
    firstParents commits none = [] := by
  induction commits with
  | nil => rfl
  | cons d rest ih => rw [firstParents, if_neg (by simp), ih]

/-- A first-parent walk stays with what can be reached. -/
theorem firstParents_reachable {commits : List Commit} {sha : Text}
    {seeds : List Text} (hseed : sha ∈ seeds) :
    ∀ c ∈ firstParents commits (some sha),
      c.sha ∈ reachable commits seeds := by
  induction commits generalizing sha seeds with
  | nil =>
      intro c hc
      cases hc
  | cons d rest ih =>
      intro c hc
      unfold firstParents at hc
      unfold reachable
      split at hc
      next heq =>
        injection heq with heq
        rw [if_pos (heq ▸ hseed)]
        rcases List.mem_cons.mp hc with rfl | hc
        · exact List.mem_cons_self
        · cases hparents : d.parents with
          | nil =>
              rw [hparents] at hc
              rw [List.head?_nil, firstParents_none] at hc
              cases hc
          | cons p parents =>
              rw [hparents] at hc
              exact List.mem_cons_of_mem _ (ih (by simp) c hc)
      next =>
        split
        · exact List.mem_cons_of_mem _
            (ih (List.mem_append_right _ hseed) c hc)
        · exact ih hseed c hc

/-- What stands before every seed is not reached. -/
theorem reachable_append {newer commits : List Commit} {seeds : List Text}
    (h : ∀ c ∈ newer, c.sha ∉ seeds) :
    reachable (newer ++ commits) seeds = reachable commits seeds := by
  induction newer with
  | nil => rfl
  | cons d newer ih =>
      rw [List.forall_mem_cons] at h
      rw [List.cons_append, reachable, if_neg h.1, ih h.2]

theorem reachable_subset (commits : List Commit) (seeds : List Text) :
    reachable commits seeds ⊆ commits.map Commit.sha := by
  induction commits generalizing seeds with
  | nil => exact List.Subset.refl []
  | cons d rest ih =>
      unfold reachable
      split
      · exact List.cons_subset_cons _ (ih _)
      · exact fun sha hsha => List.mem_cons_of_mem _ (ih _ hsha)

/-- What is newer than a commit does not matter to the walk from it. -/
theorem firstParents_append {newer commits : List Commit} {sha : Text}
    (h : ∀ c ∈ newer, c.sha ≠ sha) :
    firstParents (newer ++ commits) (some sha)
      = firstParents commits (some sha) := by
  induction newer with
  | nil => rfl
  | cons d newer ih =>
      rw [List.forall_mem_cons] at h
      have hne : some sha ≠ some d.sha := fun heq => h.1 (Option.some.inj heq).symm
      rw [List.cons_append, firstParents, if_neg hne, ih h.2]

/-- The first parent of a commit comes next in the walk. -/
theorem firstParents_next {commits : List Commit}
    (hlater : ParentsLater commits) (hnodup : (commits.map Commit.sha).Nodup)
    {c : Commit} (hc : c ∈ commits) {base : Text}
    (hbase : c.parents.head? = some base) :
    ∃ rest, firstParents commits (some c.sha) = c :: rest
      ∧ (rest.map Commit.sha).head? = some base := by
  induction commits with
  | nil => cases hc
  | cons d commits ih =>
      obtain ⟨hparents, hlater⟩ := hlater
      rw [List.map_cons, List.nodup_cons] at hnodup
      rcases List.mem_cons.mp hc with rfl | hmem
      · rw [firstParents, if_pos rfl, hbase]
        obtain ⟨b, rest, hwalk, hb⟩ := firstParents_head
          (hparents base (List.mem_of_mem_head? hbase))
        exact ⟨_, rfl, by rw [hwalk, List.map_cons, hb]; rfl⟩
      · have hne : some c.sha ≠ some d.sha := by
          intro heq
          apply hnodup.1
          rw [← Option.some.inj heq]
          exact List.mem_map_of_mem hmem
        rw [firstParents, if_neg hne]
        exact ih hlater hnodup.2 hmem

/-- A walk ends with a commit without parents. -/
theorem firstParents_root {commits : List Commit}
    (hnodup : (commits.map Commit.sha).Nodup) {c : Commit} (hc : c ∈ commits)
    (hroot : c.parents.head? = none) :
    firstParents commits (some c.sha) = [c] := by
  induction commits with
  | nil => cases hc
  | cons d commits ih =>
      rw [List.map_cons, List.nodup_cons] at hnodup
      rcases List.mem_cons.mp hc with rfl | hmem
      · rw [firstParents, if_pos rfl, hroot, firstParents_none]
      · have hne : some c.sha ≠ some d.sha := by
          intro heq
          apply hnodup.1
          rw [← Option.some.inj heq]
          exact List.mem_map_of_mem hmem
        rw [firstParents, if_neg hne]
        exact ih hnodup.2 hmem

-- ============================================================= on the line

namespace Repository

theorem mem_mainLine {sha : Text} :
    sha ∈ repo.mainLine
      ↔ ∃ c ∈ firstParents repo.commits (some repo.tip), c.sha = sha :=
  List.mem_map

theorem ahead_iff {sha older : Text} :
    repo.Ahead sha older ↔ older ∈ repo.mainLine
      ∧ repo.mainLine.idxOf sha < repo.mainLine.idxOf older :=
  pair_sublist_iff repo.mainLine_nodup

theorem idxOf_inj {sha other : Text} (h : sha ∈ repo.mainLine)
    (heq : repo.mainLine.idxOf sha = repo.mainLine.idxOf other) :
    sha = other := (List.idxOf_inj h).mp heq

/-- The walk from a commit of main: it and what is behind it. -/
theorem mem_firstParents {sha other : Text} (hsha : sha ∈ repo.mainLine)
    (hother : other ∈ repo.mainLine) :
    other ∈ (firstParents repo.commits (some sha)).map Commit.sha
      ↔ repo.mainLine.idxOf sha ≤ repo.mainLine.idxOf other := by
  obtain ⟨c, hc, rfl⟩ := mem_mainLine.mp hsha
  obtain ⟨newer, hline⟩ := firstParents_suffix repo.distinct hc
  obtain ⟨d, rest, hwalk, hd⟩ := firstParents_head
    (List.mem_map_of_mem ((firstParents_sublist _ _).subset hc))
  have hmain : repo.mainLine = newer.map Commit.sha
      ++ (firstParents repo.commits (some c.sha)).map Commit.sha := by
    rw [← List.map_append, hline]
    rfl
  have hnodup := repo.mainLine_nodup
  rw [hmain] at hother hnodup ⊢
  have hfirst : c.sha
      ∈ (firstParents repo.commits (some c.sha)).map Commit.sha := by
    rw [hwalk, List.map_cons, hd]
    exact List.mem_cons_self
  have hindex : (newer.map Commit.sha
      ++ (firstParents repo.commits (some c.sha)).map Commit.sha).idxOf c.sha
      = (newer.map Commit.sha).length := by
    rw [List.idxOf_append_of_notMem
      (fun hmem => (List.nodup_append.mp hnodup).2.2 _ hmem _ hfirst rfl),
      hwalk, List.map_cons, hd, List.idxOf_cons_self, Nat.add_zero]
  rw [hindex]
  rcases List.mem_append.mp hother with hnew | hold
  · have hlt := List.idxOf_lt_length_of_mem hnew
    rw [List.idxOf_append_of_mem hnew]
    constructor
    · intro hmem
      exact absurd rfl ((List.nodup_append.mp hnodup).2.2 _ hnew _ hmem)
    · intro hle
      omega
  · have hnot : other ∉ newer.map Commit.sha := fun hmem =>
      (List.nodup_append.mp hnodup).2.2 _ hmem _ hold rfl
    rw [List.idxOf_append_of_notMem hnot]
    exact ⟨fun _ => Nat.le_add_right _ _, fun _ => hold⟩

/-- Of main, a commit of main reaches itself and what is behind it. -/
theorem reachable_main {sha other : Text} (hsha : sha ∈ repo.mainLine)
    (hother : other ∈ repo.mainLine) :
    other ∈ reachable repo.commits [sha]
      ↔ repo.mainLine.idxOf sha ≤ repo.mainLine.idxOf other := by
  rw [← mem_firstParents hsha hother]
  constructor
  · intro hreach
    rw [mem_firstParents hsha hother]
    by_contra hlt
    -- so `other` stands before `sha` among the commits
    have hahead : [other, sha].Sublist (repo.commits.map Commit.sha) :=
      (ahead_iff.mpr ⟨hsha, Nat.lt_of_not_le hlt⟩).trans
        ((firstParents_sublist _ _).map _)
    obtain ⟨c, hc, rfl⟩ := mem_mainLine.mp hsha
    obtain ⟨newer, older, hcommits⟩ :=
      List.append_of_mem ((firstParents_sublist _ _).subset hc)
    have hnodup := repo.distinct
    rw [hcommits, List.map_append, List.map_cons] at hnodup hahead
    have hbefore := List.nodup_append.mp hnodup
    rw [hcommits, reachable_append] at hreach
    · have hmem := reachable_subset _ _ hreach
      rw [pair_sublist_iff hnodup] at hahead
      have hnot : c.sha ∉ newer.map Commit.sha := fun hin =>
        hbefore.2.2 _ hin _ List.mem_cons_self rfl
      have hnot' : other ∉ newer.map Commit.sha := fun hin =>
        hbefore.2.2 _ hin _ hmem rfl
      rw [List.idxOf_append_of_notMem hnot,
        List.idxOf_append_of_notMem hnot', List.idxOf_cons_self] at hahead
      omega
    · intro d hd heq
      rw [List.mem_singleton] at heq
      exact hbefore.2.2 _ (List.mem_map_of_mem hd) _ List.mem_cons_self heq
  · intro hwalk
    obtain ⟨c, hc, rfl⟩ := List.mem_map.mp hwalk
    exact firstParents_reachable (List.mem_singleton_self _) c hc

/-- A range on main: what is behind its end or its end, and ahead of its
beginning. -/
theorem mem_range_main {excluded sha other : Text}
    (hexcluded : excluded ∈ repo.mainLine) (hsha : sha ∈ repo.mainLine)
    (hother : other ∈ repo.mainLine) :
    other ∈ (repo.range excluded sha).map Commit.sha
      ↔ repo.mainLine.idxOf sha ≤ repo.mainLine.idxOf other
        ∧ repo.Ahead other excluded := by
  have hahead : repo.Ahead other excluded
      ↔ ¬ other ∈ reachable repo.commits [excluded] := by
    rw [reachable_main hexcluded hother, ahead_iff, Nat.not_le]
    exact and_iff_right hexcluded
  rw [hahead, ← mem_firstParents hsha hother]
  unfold range
  simp only [List.mem_map, List.mem_filter, decide_eq_true_eq]
  constructor
  · rintro ⟨c, ⟨hc, hnot⟩, rfl⟩
    exact ⟨⟨c, hc, rfl⟩, hnot⟩
  · rintro ⟨⟨c, hc, rfl⟩, hnot⟩
    exact ⟨c, ⟨hc, hnot⟩, rfl⟩

/-- The first parent of a commit. -/
def baseOf (repo : Repository) (sha : Text) : Option Text :=
  (repo.find sha).bind fun c => c.parents.head?

/-- The first parent of a commit of main is the next one on main. -/
theorem idxOf_baseOf {sha base : Text} (hsha : sha ∈ repo.mainLine)
    (hbase : repo.baseOf sha = some base) :
    base ∈ repo.mainLine
      ∧ repo.mainLine.idxOf base = repo.mainLine.idxOf sha + 1 := by
  obtain ⟨c, hc, rfl⟩ := mem_mainLine.mp hsha
  have hmem := (firstParents_sublist _ _).subset hc
  unfold baseOf at hbase
  rw [find_sha hmem, Option.bind_some] at hbase
  obtain ⟨rest, hwalk, hrest⟩ :=
    firstParents_next repo.parentsLater repo.distinct hmem hbase
  obtain ⟨newer, hline⟩ := firstParents_suffix repo.distinct hc
  obtain ⟨b, rest, rfl⟩ : ∃ b rest', rest = b :: rest' := by
    cases rest with
    | nil => cases hrest
    | cons b rest => exact ⟨b, rest, rfl⟩
  rw [List.map_cons, List.head?_cons, Option.some.injEq] at hrest
  have hmain : repo.mainLine = newer.map Commit.sha
      ++ c.sha :: base :: rest.map Commit.sha := by
    unfold mainLine
    rw [← hline, hwalk, List.map_append, List.map_cons, List.map_cons, hrest]
  have hnodup := repo.mainLine_nodup
  rw [hmain] at hnodup ⊢
  have hbefore := List.nodup_append.mp hnodup
  have hnot : ∀ other ∈ c.sha :: base :: rest.map Commit.sha,
      other ∉ newer.map Commit.sha :=
    fun other hother hin => hbefore.2.2 _ hin _ hother rfl
  have hne : c.sha ≠ base := by
    intro heq
    exact (List.nodup_cons.mp hbefore.2.1).1 (heq ▸ List.mem_cons_self)
  refine ⟨by simp, ?_⟩
  rw [List.idxOf_append_of_notMem (hnot base (by simp)),
    List.idxOf_append_of_notMem (hnot c.sha (by simp)), List.idxOf_cons_self,
    List.idxOf_cons_ne _ hne, List.idxOf_cons_self]

/-- A commit of main with another one behind it has a first parent. -/
theorem exists_baseOf {sha : Text} (hsha : sha ∈ repo.mainLine)
    (hmore : ∃ other ∈ repo.mainLine,
      repo.mainLine.idxOf sha < repo.mainLine.idxOf other) :
    ∃ base, repo.baseOf sha = some base := by
  obtain ⟨other, hother, hlt⟩ := hmore
  have hmem := (mem_firstParents hsha hother).mpr (Nat.le_of_lt hlt)
  obtain ⟨c, hc, rfl⟩ := mem_mainLine.mp hsha
  have hheld := (firstParents_sublist _ _).subset hc
  unfold baseOf
  rw [find_sha hheld, Option.bind_some]
  cases hparents : c.parents.head? with
  | some base => exact ⟨base, rfl⟩
  | none =>
      exfalso
      rw [firstParents_root repo.distinct hheld hparents, List.map_singleton,
        List.mem_singleton] at hmem
      rw [hmem] at hlt
      exact absurd hlt (Nat.lt_irrefl _)

/-- Main has grown since an earlier state. -/
def Grew (before repo : Repository) : Prop := before.commits <:+ repo.commits

/-- A range of the earlier state is the same now. -/
theorem Grew.range_eq {before : Repository} (h : before.Grew repo)
    {excluded sha : Text} (hexcluded : excluded ∈ before.commits.map Commit.sha)
    (hsha : sha ∈ before.commits.map Commit.sha) :
    before.range excluded sha = repo.range excluded sha := by
  obtain ⟨newer, hcommits⟩ := h
  have hnodup := repo.distinct
  rw [← hcommits, List.map_append] at hnodup
  have hnot : ∀ {other}, other ∈ before.commits.map Commit.sha →
      ∀ c ∈ newer, c.sha ≠ other := by
    intro other hother c hc heq
    exact (List.nodup_append.mp hnodup).2.2 _ (List.mem_map_of_mem hc) _ hother
      heq
  unfold range
  rw [← hcommits, firstParents_append (hnot hsha), reachable_append]
  intro c hc hmem
  exact hnot hexcluded c hc (List.mem_singleton.mp hmem)

end Repository

-- ============================================================ what is read

/-- The start of a row of the log, up to the tab. -/
theorem readRow_sha {sha rest : Text} {e : LogEntry} (hsha : IsSha sha)
    (hrest : rest <+: '\t' :: rest.tail) (h : readRow (sha ++ rest) = .ok e) :
    e.sha = (sha ++ rest).take 40 := by
  have htab : '\t' ∉ sha := not_mem_of_isSha hsha (by decide)
  have hcr : '\r' ∉ sha := not_mem_of_isSha hsha (by decide)
  rw [List.take_left' hsha.1]
  cases rest with
  | nil =>
      -- the tab was trimmed as well
      exfalso
      have htrim : trimEndCr sha = sha := by
        unfold trimEndCr
        rw [List.rdropWhile_eq_self_iff]
        intro hne hlast
        exact hcr (eq_of_beq hlast ▸ List.getLast_mem hne)
      have hindex : sha.idxOf '\t' = sha.length :=
        List.idxOf_eq_length_iff.mpr htab
      unfold readRow at h
      dsimp only at h
      rw [List.append_nil, htrim, hindex, if_pos (Or.inr (Nat.le_refl _))] at h
      cases h
  | cons c rest =>
      obtain rfl : c = '\t' := by
        rw [List.tail_cons, List.cons_prefix_cons] at hrest
        exact hrest.1
      have hpart : Lib.Trimmed (· == '\r') (sha ++ ['\t']) := by
        constructor
        · intro x hx
          rw [List.head?_append_of_ne_nil _ (sha_ne_nil hsha)] at hx
          rw [beq_eq_false_iff_ne]
          rintro rfl
          exact hcr (List.mem_of_mem_head? hx)
        · intro x hx
          rw [List.getLast?_concat] at hx
          cases hx
          rfl
      have htrim : trimEndCr (sha ++ '\t' :: rest)
          = sha ++ '\t' :: trimEndCr rest := by
        have happend := rdropWhile_append_trimmed hpart (by simp) [] rest
        simpa [trimEndCr] using happend
      have hindex : (sha ++ '\t' :: trimEndCr rest).idxOf '\t' = sha.length := by
        rw [List.idxOf_append_of_notMem htab, List.idxOf_cons_self,
          Nat.add_zero]
      unfold readRow at h
      dsimp only at h
      rw [htrim, hindex] at h
      split at h
      next => cases h
      next =>
        cases h
        exact List.take_left

/-- The rows that are left of the log of a range. -/
theorem lines_log {commits : List Commit} (hne : commits ≠ [])
    (hshas : ∀ c ∈ commits, IsSha c.sha)
    (honeLine : ∀ c ∈ commits, '\n' ∉ c.subject) :
    ∃ rows, lines (trim (printLines (commits.map Commit.row))) = rows
      ∧ rows.map (List.take 40) = commits.map Commit.sha
      ∧ ∀ row ∈ rows, ∃ sha rest, row = sha ++ rest ∧ IsSha sha
        ∧ rest <+: '\t' :: rest.tail := by
  obtain ⟨init, last, rfl⟩ := (List.eq_nil_or_concat' commits).resolve_left hne
  rw [List.forall_mem_append, List.forall_mem_singleton] at hshas honeLine
  obtain ⟨hshas, hsha⟩ := hshas
  obtain ⟨honeLine, hline⟩ := honeLine
  have hpart : Lib.Trimmed isWhiteSpace last.sha :=
    ⟨(isSha_trimmed hsha).first, (isSha_trimmed hsha).last⟩
  let kept := ('\t' :: last.subject).rdropWhile isWhiteSpace
  have hkept : kept <+: '\t' :: last.subject := List.rdropWhile_prefix _ _
  have hprint : printLines ((init ++ [last]).map Commit.row)
      = printLines (init.map Commit.row)
        ++ (last.sha ++ (('\t' :: last.subject) ++ ['\n'])) := by
    simp [printLines, Commit.row]
  have hfront : (printLines (init.map Commit.row)).dropWhile isWhiteSpace
      = printLines (init.map Commit.row) := by
    apply dropWhile_self
    cases init with
    | nil =>
        intro x hx
        cases hx
    | cons c init =>
        obtain ⟨d, hd, hclean⟩ := trimmed_starts
          (isSha_trimmed (hshas c List.mem_cons_self))
          (sha_ne_nil (hshas c List.mem_cons_self))
        intro x hx
        have hhead : (printLines ((c :: init).map Commit.row)).head?
            = c.sha.head? := by
          obtain ⟨y, more, hy⟩ := List.exists_cons_of_ne_nil
            (sha_ne_nil (hshas c List.mem_cons_self))
          simp [printLines, Commit.row, hy]
        rw [hhead, hd] at hx
        cases hx
        exact hclean
  have htrim : trim (printLines ((init ++ [last]).map Commit.row))
      = joinLines (init.map Commit.row ++ [last.sha ++ kept]) := by
    rw [hprint, joinLines_snoc]
    unfold trim trimEnd
    rw [dropWhile_append_trimmed hpart (sha_ne_nil hsha),
      rdropWhile_append_trimmed hpart (sha_ne_nil hsha),
      List.rdropWhile_concat_pos _ _ _ (by decide), hfront]
  refine ⟨init.map Commit.row ++ [last.sha ++ kept], ?_, ?_, ?_⟩
  · rw [htrim]
    apply List.splitOn_intercalate
    · rw [List.forall_mem_append, List.forall_mem_singleton]
      constructor
      · intro row hrow
        obtain ⟨c, hc, rfl⟩ := List.mem_map.mp hrow
        have hnot := not_mem_of_isSha (hshas c hc) (c := '\n') (by decide)
        simp [Commit.row, hnot, honeLine c hc]
      · have hnot := not_mem_of_isSha hsha (c := '\n') (by decide)
        rw [List.mem_append, not_or]
        refine ⟨hnot, fun hmem => ?_⟩
        simpa [hline] using hkept.subset hmem
    · simp
  · rw [List.map_append, List.map_append, List.map_map, List.map_singleton,
      List.map_singleton, List.take_left' hsha.1]
    congr 1
    apply List.map_congr_left
    intro c hc
    exact List.take_left' (hshas c hc).1
  · rw [List.forall_mem_append, List.forall_mem_singleton]
    constructor
    · intro row hrow
      obtain ⟨c, hc, rfl⟩ := List.mem_map.mp hrow
      exact ⟨c.sha, '\t' :: c.subject, rfl, hshas c hc, List.prefix_refl _⟩
    · refine ⟨last.sha, kept, rfl, hsha, ?_⟩
      cases hrest : kept with
      | nil => exact List.nil_prefix
      | cons c rest =>
          rw [hrest, List.cons_prefix_cons] at hkept
          rw [hkept.1]
          exact List.prefix_refl _

/-- What `Get-RangeLog` reads since a tag are the commits of the range. -/
theorem getRangeLog_shas [Culture] {git : Git} (hgit : git.Serves repo)
    {tag : TagRef Text} (htag : tag ∈ repo.tags) {base : Text}
    (hbase : base ∈ repo.commits.map Commit.sha) {log : RangeLog}
    (h : getRangeLog git base = .ok log) (hlast : log.tag = tag.name) :
    log.entries.map LogEntry.sha
      = (repo.range tag.commit base).map Commit.sha := by
  obtain ⟨c, hc, rfl⟩ := List.mem_map.mp hbase
  unfold getRangeLog at h
  split at h
  next => cases h
  next latest stderr _ =>
    dsimp only at h
    split at h
    next => cases h
    next out hout =>
      split at h
      next => cases h
      next entries hentries =>
        cases h
        have hname : tagName latest = tag.name := hlast
        rw [hname, getGitOutput_success (hgit.range tag htag c hc)] at hout
        injection hout with hout
        have hin : ∀ d ∈ repo.range tag.commit c.sha, d ∈ repo.commits :=
          fun d hd => (mem_range hd).1
        show entries.map LogEntry.sha = _
        by_cases hempty : repo.range tag.commit c.sha = []
        · rw [hempty] at hout ⊢
          have hnil : out = [] := hout.symm
          rw [hnil, if_pos isEmptyText_nil] at hentries
          cases hentries
          rfl
        · obtain ⟨rows, hlines, hshas, hrows⟩ := lines_log hempty
            (fun d hd => repo.shas d (hin d hd))
            fun d hd => repo.oneLine d (hin d hd)
          have hnot : isEmptyText out = false := by
            obtain ⟨d, rest, hd⟩ := List.exists_cons_of_ne_nil hempty
            have hsha := repo.shas d (hin d (by simp [hd]))
            obtain ⟨more, hmore⟩ := trim_printLines_start (isSha_trimmed hsha)
              (sha_ne_nil hsha) ('\t' :: d.subject) (rest.map Commit.row)
            have hout : d.sha ++ more = out := by
              rw [← hmore, ← hout, hd]
              rfl
            rw [← hout]
            exact not_isEmptyText_sha hsha more
          rw [if_neg (Bool.eq_false_iff.mp hnot), ← hout, hlines] at hentries
          rw [← hshas]
          apply map_of_mapM_ok _ hentries
          intro row hrow e he
          obtain ⟨sha, rest, rfl, hsha, hrest⟩ := hrows row hrow
          exact readRow_sha hsha hrest he

-- ================================================================= releases

/-- A version tag and the next one. -/
structure Consecutive (repo : Repository) (t t' : TagRef Text) : Prop where
  mem : t ∈ repo.tags
  mem' : t' ∈ repo.tags
  valid : Valid t.name
  valid' : Valid t'.name
  lt : shapedVersion t.name < shapedVersion t'.name
  next : ∀ u ∈ repo.tags, Valid u.name →
    shapedVersion u.name ≤ shapedVersion t.name
      ∨ shapedVersion t'.name ≤ shapedVersion u.name

/-- The tag's commit is this one or ahead of it. -/
def Repository.Covers (repo : Repository) (t : TagRef Text) (sha : Text) :
    Prop :=
  repo.mainLine.idxOf t.commit ≤ repo.mainLine.idxOf sha

/-- The commit is in the range of the release of `p.2` after `p.1`: from the
last tag to the base of the cut, which is under the tagged commit. -/
def InRelease (repo : Repository) (sha : Text)
    (p : TagRef Text × TagRef Text) : Prop :=
  Consecutive repo p.1 p.2
    ∧ ∃ base, repo.baseOf p.2.commit = some base
      ∧ sha ∈ (repo.range p.1.commit base).map Commit.sha

/-- What `Get-RangeLog` reads for this release: over the base, in an earlier
state in which `p.1` is the last tag. -/
structure ReadFor [Culture] (git : Repository → Git) (repo : Repository)
    (p : TagRef Text × TagRef Text) (log : RangeLog) : Prop where
  read : ∃ before : Repository, before.Grew repo ∧ p.1 ∈ before.tags
    ∧ ∃ base, repo.baseOf p.2.commit = some base
      ∧ base ∈ before.commits.map Commit.sha
      ∧ getRangeLog (git before) base = .ok log
  last : log.tag = p.1.name

/-- A version tag is on the commit. -/
def IsTagged (repo : Repository) (sha : Text) : Prop :=
  ∃ t ∈ repo.tags, Valid t.name ∧ t.commit = sha

/-- The commits of a release are those that are read for it. -/
theorem inRelease_iff_read [Culture] {git : Repository → Git}
    (hgit : ∀ repo, (git repo).Serves repo) {p : TagRef Text × TagRef Text}
    (hnext : Consecutive repo p.1 p.2) {log : RangeLog}
    (h : ReadFor git repo p log) {sha : Text} :
    InRelease repo sha p ↔ sha ∈ log.entries.map LogEntry.sha := by
  obtain ⟨before, hgrew, htag, base, hbase, hheld, hread⟩ := h.read
  have hexcluded := before.tagsHeld p.1 htag
  rw [getRangeLog_shas (hgit before) htag hheld hread h.last,
    hgrew.range_eq hexcluded hheld]
  constructor
  · rintro ⟨-, base', hbase', hmem⟩
    rw [hbase] at hbase'
    cases hbase'
    exact hmem
  · exact fun hmem => ⟨hnext, base, hbase, hmem⟩

section partition

variable (ha : AlongMain repo) {t t' : TagRef Text}
include ha

/-- The version says where the tag is. -/
theorem AlongMain.idxOf_lt (ht : t ∈ repo.tags) (ht' : t' ∈ repo.tags)
    (hv : Valid t.name) (hv' : Valid t'.name)
    (hlt : shapedVersion t.name < shapedVersion t'.name) :
    repo.mainLine.idxOf t'.commit < repo.mainLine.idxOf t.commit :=
  (Repository.ahead_iff.mp (ha.ordered t ht t' ht' hv hv' hlt)).2

omit ha in
theorem eq_of_version (ht : t ∈ repo.tags) (ht' : t' ∈ repo.tags)
    (hv : Valid t.name) (hv' : Valid t'.name)
    (heq : shapedVersion t.name = shapedVersion t'.name) : t = t' := by
  apply List.inj_on_of_nodup_map repo.tagsDistinct ht ht'
  rw [hv.name_eq, hv'.name_eq, heq]

/-- A commit with a version tag behind it, and one on it or ahead of it,
is between two consecutive ones. -/
theorem AlongMain.exists_consecutive {sha : Text}
    (hbehind : ∃ t ∈ repo.tags, Valid t.name ∧ repo.Ahead sha t.commit)
    (hahead : ∃ t ∈ repo.tags, Valid t.name ∧ repo.Covers t sha) :
    ∃ t t', Consecutive repo t t' ∧ repo.Ahead sha t.commit
      ∧ repo.Covers t' sha := by
  -- the highest tag behind it, and the lowest that is not
  obtain ⟨t, ⟨ht, hv, hsha⟩, hmax⟩ := Set.exists_max_image
    {t | t ∈ repo.tags ∧ Valid t.name ∧ repo.Ahead sha t.commit}
    (fun t => shapedVersion t.name)
    ((List.finite_toSet repo.tags).subset fun _ h => h.1) hbehind
  obtain ⟨t', ⟨ht', hv', hcovers⟩, hmin⟩ := Set.exists_min_image
    {t | t ∈ repo.tags ∧ Valid t.name ∧ repo.Covers t sha}
    (fun t => shapedVersion t.name)
    ((List.finite_toSet repo.tags).subset fun _ h => h.1) hahead
  have hindex := (Repository.ahead_iff.mp hsha).2
  unfold Repository.Covers at hcovers
  refine ⟨t, t', ⟨ht, ht', hv, hv', ?_, ?_⟩, hsha, hcovers⟩
  · by_contra hnot
    rcases lt_or_eq_of_le (le_of_not_gt hnot) with hlt | heq
    · have := ha.idxOf_lt ht' ht hv' hv hlt
      omega
    · rw [eq_of_version ht' ht hv' hv heq] at hcovers
      omega
  · intro u hu hvu
    by_cases hle : repo.mainLine.idxOf u.commit ≤ repo.mainLine.idxOf sha
    · exact Or.inr (hmin u ⟨hu, hvu, hle⟩)
    · refine Or.inl (hmax u ⟨hu, hvu, ?_⟩)
      exact Repository.ahead_iff.mpr
        ⟨ha.onMain u hu hvu, Nat.lt_of_not_le hle⟩

/-- Consecutive tags around a commit are the only ones. -/
theorem AlongMain.consecutive_unique {sha : Text} {u u' : TagRef Text}
    (h : Consecutive repo t t') (hsha : repo.Ahead sha t.commit)
    (hcovers : repo.Covers t' sha) (hu : Consecutive repo u u')
    (hsha' : repo.Ahead sha u.commit) (hcovers' : repo.Covers u' sha) :
    t = u ∧ t' = u' := by
  have hindex := (Repository.ahead_iff.mp hsha).2
  have hindex' := (Repository.ahead_iff.mp hsha').2
  unfold Repository.Covers at hcovers hcovers'
  -- a tag on or ahead of the commit is not at or below one behind it
  have hsep : ∀ x ∈ repo.tags, ∀ y ∈ repo.tags, Valid x.name →
      Valid y.name →
      repo.mainLine.idxOf x.commit < repo.mainLine.idxOf y.commit →
      shapedVersion y.name < shapedVersion x.name := by
    intro x hx y hy hvx hvy hlt
    rcases lt_trichotomy (shapedVersion x.name) (shapedVersion y.name) with
      hxy | heq | hyx
    · have := ha.idxOf_lt hx hy hvx hvy hxy
      omega
    · rw [eq_of_version hx hy hvx hvy heq] at hlt
      exact absurd hlt (lt_irrefl _)
    · exact hyx
  have hut' := hsep t' h.mem' u hu.mem h.valid' hu.valid (by omega)
  have htu' := hsep u' hu.mem' t h.mem hu.valid' h.valid (by omega)
  constructor
  · apply eq_of_version h.mem hu.mem h.valid hu.valid
    apply le_antisymm
    · exact (hu.next t h.mem h.valid).resolve_right (not_le_of_gt htu')
    · exact (h.next u hu.mem hu.valid).resolve_right (not_le_of_gt hut')
  · apply eq_of_version h.mem' hu.mem' h.valid' hu.valid'
    apply le_antisymm
    · exact (h.next u' hu.mem' hu.valid').resolve_left (not_le_of_gt htu')
    · exact (hu.next t' h.mem' h.valid').resolve_left (not_le_of_gt hut')

/-- A release covers what is between its tag and the one before, and not
the tagged commit itself. -/
theorem AlongMain.inRelease_iff {sha : Text} (hsha : sha ∈ repo.mainLine) :
    InRelease repo sha (t, t')
      ↔ Consecutive repo t t' ∧ repo.Ahead sha t.commit
        ∧ repo.Covers t' sha ∧ t'.commit ≠ sha := by
  unfold InRelease Repository.Covers
  refine and_congr_right fun h => ?_
  have hmain := ha.onMain t h.mem h.valid
  have hmain' := ha.onMain t' h.mem' h.valid'
  have hlt := ha.idxOf_lt h.mem h.mem' h.valid h.valid' h.lt
  have hne : repo.mainLine.idxOf t'.commit ≠ repo.mainLine.idxOf sha
      ↔ t'.commit ≠ sha :=
    not_congr ⟨fun heq => Repository.idxOf_inj hmain' heq, fun heq => by rw [heq]⟩
  obtain ⟨base, hbase⟩ := Repository.exists_baseOf hmain' ⟨t.commit, hmain, hlt⟩
  obtain ⟨hbaseMain, hindex⟩ := Repository.idxOf_baseOf hmain' hbase
  have hrange := Repository.mem_range_main hmain hbaseMain hsha
  rw [← hne]
  constructor
  · rintro ⟨base', hbase', hmem⟩
    rw [hbase] at hbase'
    cases hbase'
    obtain ⟨hle, hahead⟩ := hrange.mp hmem
    exact ⟨hahead, by omega, by omega⟩
  · rintro ⟨hahead, hle, hdiffers⟩
    exact ⟨base, hbase, hrange.mpr ⟨by omega, hahead⟩⟩

/-- Of consecutive tags around a commit with a version tag, the later one is
on it. -/
theorem AlongMain.covers_tagged {u : TagRef Text} (h : Consecutive repo t t')
    (hu : u ∈ repo.tags) (hvu : Valid u.name)
    (hahead : repo.Ahead u.commit t.commit)
    (hcovers : repo.Covers t' u.commit) : t'.commit = u.commit := by
  have hindex := (Repository.ahead_iff.mp hahead).2
  unfold Repository.Covers at hcovers
  rcases h.next u hu hvu with hle | hle
  · rcases lt_or_eq_of_le hle with hlt | heq
    · have := ha.idxOf_lt hu h.mem hvu h.valid hlt
      omega
    · rw [eq_of_version hu h.mem hvu h.valid heq] at hindex
      exact absurd hindex (Nat.lt_irrefl _)
  · rcases lt_or_eq_of_le hle with hlt | heq
    · have := ha.idxOf_lt h.mem' hu h.valid' hvu hlt
      omega
    · rw [eq_of_version h.mem' hu h.valid' hvu heq]

/-- A commit with a version tag behind it, and none on it or ahead of it, is
among those since the last tag. -/
theorem AlongMain.mem_since {sha : Text}
    (hbehind : ∃ t ∈ repo.tags, Valid t.name ∧ repo.Ahead sha t.commit)
    (hnone : ¬ ∃ t ∈ repo.tags, Valid t.name ∧ repo.Covers t sha)
    (hsha : sha ∈ repo.mainLine) :
    ∃ last, repo.LastTag last ∧ sha ∈ (repo.since last).map Commit.sha := by
  obtain ⟨t, ht, hv, -⟩ := hbehind
  obtain ⟨last, ⟨hlast, hvlast⟩, hmax⟩ := Set.exists_max_image
    {t | t ∈ repo.tags ∧ Valid t.name}
    (fun t => shapedVersion t.name)
    ((List.finite_toSet repo.tags).subset fun _ h => h.1)
    ⟨t, ht, hv⟩
  refine ⟨last, ⟨hlast, List.mem_map_of_mem hlast, hvlast, ?_⟩, ?_⟩
  · intro other hother hvother
    obtain ⟨u, hu, rfl⟩ := List.mem_map.mp hother
    exact hmax u ⟨hu, hvother⟩
  · obtain ⟨rest, hline⟩ := repo.mainLine_tip
    have htip : repo.tip ∈ repo.mainLine := by
      rw [hline]
      exact List.mem_cons_self
    have hfirst : repo.mainLine.idxOf repo.tip = 0 := by
      rw [hline, List.idxOf_cons_self]
    unfold Repository.since
    rw [Repository.mem_range_main (ha.onMain last hlast hvlast) htip hsha]
    refine ⟨by omega, Repository.ahead_iff.mpr
      ⟨ha.onMain last hlast hvlast, ?_⟩⟩
    by_contra hnot
    exact hnone ⟨last, hlast, hvlast, Nat.le_of_not_lt hnot⟩

end partition

-- ============================================================== the result

/-- Each change is released once. In every state the tagging bot reaches, a
commit of main with a version tag behind it and none on it is in the range
of exactly one release, the one of the next tag, if a version tag is ahead
of it; and otherwise it is among the commits since the last tag. One with a
version tag on it is in none. What is in the range of a release is what
`Get-RangeLog` reads for it. -/
theorem changes_released_once [Culture] {git : Repository → Git}
    {sortV : List Text → List Text}
    (hgit : ∀ repo, (git repo).Serves repo) (hsort : VersionSort sortV)
    {s₀ s : Tagging} {h : List (TagAction × TagAnswer)}
    (hstart : (tagging git sortV).start s₀) (halong : AlongMain s₀.repo)
    (hrun : (tagging git sortV).Run s₀ h s) {sha : Text}
    (hsha : sha ∈ s.repo.mainLine)
    (hbehind : ∃ t ∈ s.repo.tags, Valid t.name
      ∧ s.repo.Ahead sha t.commit) :
    (IsTagged s.repo sha → ∀ p, ¬ InRelease s.repo sha p)
      ∧ (¬ IsTagged s.repo sha →
        ((∃ t ∈ s.repo.tags, Valid t.name ∧ s.repo.Covers t sha)
          ∧ ∃! p, InRelease s.repo sha p)
        ∨ ((∀ p, ¬ InRelease s.repo sha p)
          ∧ ∃ last, s.repo.LastTag last
            ∧ sha ∈ (s.repo.since last).map Commit.sha))
      ∧ (∀ p log, Consecutive s.repo p.1 p.2 → ReadFor git s.repo p log →
        (InRelease s.repo sha p ↔ sha ∈ log.entries.map LogEntry.sha))
      ∧ ∀ last log, s.repo.LastTag last →
        getRangeLog (git s.repo) s.repo.tip = .ok log → log.tag = last.name →
        (sha ∈ (s.repo.since last).map Commit.sha
          ↔ sha ∈ log.entries.map LogEntry.sha) := by
  have ha := (bot_invariant hgit hsort hstart halong hrun).1.along
  refine ⟨?_, fun huntagged => ?_, fun p log hnext hread =>
    inRelease_iff_read hgit hnext hread, ?_⟩
  · rintro ⟨u, hu, hvu, rfl⟩ ⟨t, t'⟩ hin
    obtain ⟨hnext, hahead, hcovers, hne⟩ := (ha.inRelease_iff hsha).mp hin
    exact hne (ha.covers_tagged hnext hu hvu hahead hcovers)
  · by_cases hcovers : ∃ t ∈ s.repo.tags, Valid t.name ∧ s.repo.Covers t sha
    · refine Or.inl ⟨hcovers, ?_⟩
      obtain ⟨t, t', hnext, hafter, hupto⟩ :=
        ha.exists_consecutive hbehind hcovers
      have hne : t'.commit ≠ sha :=
        fun heq => huntagged ⟨t', hnext.mem', hnext.valid', heq⟩
      refine ⟨(t, t'),
        (ha.inRelease_iff hsha).mpr ⟨hnext, hafter, hupto, hne⟩, ?_⟩
      rintro ⟨u, u'⟩ hu
      obtain ⟨hnext', hafter', hupto', -⟩ := (ha.inRelease_iff hsha).mp hu
      obtain ⟨rfl, rfl⟩ := ha.consecutive_unique hnext hafter hupto hnext'
        hafter' hupto'
      rfl
    · refine Or.inr ⟨?_, ha.mem_since hbehind hcovers hsha⟩
      rintro ⟨t, t'⟩ hin
      obtain ⟨hnext, -, hupto, -⟩ := (ha.inRelease_iff hsha).mp hin
      exact hcovers ⟨t', hnext.mem', hnext.valid', hupto⟩
  · intro last log hlast hread htag
    rw [getRangeLog_shas (hgit s.repo) hlast.1 s.repo.tipHeld hread htag]
    exact Iff.rfl

open SoftHyphen

/-- In `twiceTagged` the commit after the cut was not released. -/
theorem changes_released_once_twiceTagged :
    ∃ last, twiceTagged.2.repo.LastTag last
      ∧ shaOf '1' ∈ (twiceTagged.2.repo.since last).map Commit.sha := by
  have hrun : (tagging Repository.git sortByVersion).Run beforeTag
      twiceTagged.1 twiceTagged.2 :=
    .of_exec (Option.some_get tagTwice_runs).symm
  have hfirst : first ∈ twiceTagged.2.repo.tags := by
    rw [(bot_invariant (fun repo => repo.git_serves) versionSort_sortByVersion
      ⟨rfl, rfl⟩ alongMain_cut hrun).2.tags]
    exact List.mem_append_right _ (List.mem_singleton_self _)
  have hahead : twiceTagged.2.repo.Ahead (shaOf '1') first.commit :=
    Repository.ahead_iff.mpr (by decide)
  have hnone : ∀ t ∈ twiceTagged.2.repo.tags,
      ¬ twiceTagged.2.repo.mainLine.idxOf t.commit
        ≤ twiceTagged.2.repo.mainLine.idxOf (shaOf '1') := by
    decide
  have huntagged : ¬ IsTagged twiceTagged.2.repo (shaOf '1') := by
    rintro ⟨t, ht, -, heq⟩
    exact hnone t ht (by rw [heq])
  rcases (changes_released_once (fun repo => repo.git_serves)
    versionSort_sortByVersion ⟨rfl, rfl⟩ alongMain_cut hrun
    (by decide)
    ⟨first, hfirst, ⟨version 1 0 0, by decide⟩, hahead⟩).2.1
      huntagged with
    ⟨⟨t, ht, -, hcovers⟩, -⟩ | ⟨-, hlast⟩
  · exact absurd hcovers (hnone t ht)
  · exact hlast

end RestifyCapl.Ci
