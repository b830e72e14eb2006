/-
What job `publish` makes public is complete (`public_is_verified`): however
often the job is started, wherever it stops and whatever drafts others
delete, the tag gets one public release at most, with all the files of a job
that was started.

`Publishing.Move` says what a step can do, `PublishJob.Holds` what the job
has made of the releases by the time it is at a step. The step that deletes
leftover drafts is the one that has to see all of them: what it misses may
be published in the place of the draft of the job.
-/
import RestifyCapl.Ci.Publish
import Mathlib.Data.List.Perm.Basic

namespace RestifyCapl.Ci

open Lib

variable {sha256 : Text → Text} {name : Text}

-- =================================================================== a step

namespace Publishing

variable {s s' : Publishing}

/-- What a step can do to the job and to the releases. -/
inductive Move (sha256 : Text → Text) (s : Publishing) :
    PublishAction → Publishing → Prop
  | started (dist : Dist) (hjob : s.job = .free) :
      Move sha256 s (.start dist) { s with job := .downloaded dist }
  | unpublished (lookup : GhAnswer) (dist : Dist)
      (hjob : s.job = .downloaded dist) (hnone : s.isPublic = false) :
      Move sha256 s (.require lookup) { s with job := .unpublished dist }
  | listed (missed : List Nat) (dist : Dist)
      (hjob : s.job = .unpublished dist) :
      Move sha256 s (.list missed) { s with
        job := .deleting dist ((s.drafts missed).map GhRelease.id) }
  | deleted (dist : Dist) (id : Nat) (ids : List Nat)
      (hjob : s.job = .deleting dist (id :: ids)) :
      Move sha256 s .delete { s with
        releases := s.remove id, job := .deleting dist ids }
  | created (dist : Dist) (hjob : s.job = .deleting dist []) :
      Move sha256 s .create {
        releases := ⟨s.nextId, true, dist.notes, []⟩ :: s.releases
        nextId := s.nextId + 1
        job := .uploading dist s.nextId (dist.assets sha256) }
  | uploaded (k : Nat) (dist : Dist) (id : Nat) (left : List Asset)
      (asset : Asset) (hjob : s.job = .uploading dist id left)
      (hk : left[k]? = some asset) :
      Move sha256 s (.upload k) { s with
        releases := s.change id (GhRelease.addAsset asset)
        job := afterUpload dist id (left.eraseIdx k) }
  | notListed (missed : List Nat) (dist : Dist) (attempt : Nat)
      (hjob : s.job = .looking dist attempt) :
      Move sha256 s (.look missed) { s with
        job := .looking dist (attempt + 1) }
  | found (missed : List Nat) (dist : Dist) (attempt : Nat)
      (draft : GhRelease) (hjob : s.job = .looking dist attempt) :
      Move sha256 s (.look missed) { s with job := .checking dist draft }
  | checked (dist : Dist) (draft r : GhRelease)
      (hjob : s.job = .checking dist draft)
      (hr : s.findDraft draft.id = some r)
      (hsums : checkSums sha256 r.assets = true) :
      Move sha256 s .check { s with job := .verified dist }
  | madePublic (id : Nat) (dist : Dist) (r : GhRelease)
      (hjob : s.job = .verified dist) (hnone : s.isPublic = false)
      (hr : s.findDraft id = some r) :
      Move sha256 s (.makePublic id) { s with
        releases := s.change id GhRelease.setPublic
        job := .free }
  | byHand (id : Nat) :
      Move sha256 s (.deleteByHand id) { s with releases := s.remove id }
  | ended (a : PublishAction) : Move sha256 s a { s with job := .free }

/-- A 404 says that nothing is public. -/
theorem not_public_of_tells {lookup : GhAnswer} (htells : s.Tells lookup = true)
    (hcheck : checkUnpublished name lookup = .ok ()) : s.isPublic = false := by
  cases lookup with
  | ok body => cases hcheck
  | failed code err =>
      simp only [checkUnpublished] at hcheck
      split at hcheck
      next hfound =>
        simp only [Tells, hfound, Bool.not_true, Bool.false_or,
          Bool.not_eq_true'] at htells
        exact htells
      next => cases hcheck

theorem step_move {a : PublishAction} {b : PublishAnswer}
    (h : step sha256 name s a = some (b, s')) : Move sha256 s a s' := by
  cases a with
  | start dist =>
      simp only [step] at h
      split at h
      next hjob =>
        cases h
        exact .started dist hjob
      next => cases h
  | require lookup =>
      simp only [step] at h
      split at h
      next dist hjob =>
        split at h
        next htells =>
          split at h
          next =>
            cases h
            exact .ended _
          next hcheck =>
            cases h
            exact .unpublished lookup dist hjob
              (not_public_of_tells htells hcheck)
        next => cases h
      next => cases h
  | list missed =>
      simp only [step] at h
      split at h
      next dist hjob =>
        cases h
        exact .listed missed dist hjob
      next => cases h
  | delete =>
      simp only [step] at h
      split at h
      next dist id ids hjob =>
        split at h
        next =>
          cases h
          exact .ended _
        next =>
          cases h
          exact .deleted dist id ids hjob
      next => cases h
  | create =>
      simp only [step] at h
      split at h
      next dist hjob =>
        cases h
        exact .created dist hjob
      next => cases h
  | upload k =>
      simp only [step] at h
      split at h
      next dist id left hjob =>
        split at h
        next => cases h
        next =>
          cases h
          exact .ended _
        next asset _ hk _ =>
          cases h
          exact .uploaded k dist id left asset hjob hk
      next => cases h
  | look missed =>
      simp only [step] at h
      split at h
      next dist attempt hjob =>
        rw [Option.some.injEq] at h
        unfold looked at h
        split at h
        next =>
          split at h
          next =>
            cases h
            exact .notListed missed dist attempt hjob
          next =>
            cases h
            exact .ended _
        next draft _ =>
          split at h
          next =>
            cases h
            exact .ended _
          next =>
            cases h
            exact .found missed dist attempt draft hjob
        next =>
          cases h
          exact .ended _
      next => cases h
  | check =>
      simp only [step] at h
      split at h
      next dist draft hjob =>
        split at h
        next =>
          cases h
          exact .ended _
        next r hr =>
          split at h
          next hsums =>
            cases h
            exact .checked dist draft r hjob hr hsums
          next =>
            cases h
            exact .ended _
      next => cases h
  | makePublic id =>
      simp only [step] at h
      split at h
      next dist hjob =>
        unfold edited at h
        split at h
        next =>
          cases h
          exact .ended _
        next hnone =>
          split at h
          next =>
            cases h
            exact .ended _
          next =>
            split at h
            next => cases h
            next r hr =>
              cases h
              exact .madePublic id dist r hjob (Bool.eq_false_iff.mpr hnone) hr
      next => cases h
  | deleteByHand id =>
      simp only [step] at h
      split at h
      next => cases h
      next =>
        cases h
        exact .byHand id
  | stop =>
      simp only [step] at h
      split at h
      next => cases h
      next =>
        cases h
        exact .ended _

-- ================================================================ the releases

/-- The releases of the tag that are public. -/
def published (s : Publishing) : List GhRelease :=
  s.releases.filter fun r => !r.draft

theorem isPublic_eq_false :
    s.isPublic = false ↔ ∀ r ∈ s.releases, r.draft = true := by
  unfold isPublic
  rw [List.any_eq_false]
  simp only [Bool.not_eq_true', Bool.not_eq_false]

theorem published_eq_nil :
    s.published = [] ↔ ∀ r ∈ s.releases, r.draft = true := by
  unfold published
  rw [List.filter_eq_nil_iff]
  simp only [Bool.not_eq_true', Bool.not_eq_false]

theorem mem_remove {id : Nat} {r : GhRelease} (hr : r ∈ s.remove id) :
    r ∈ s.releases ∧ (r.draft = true → r.id ≠ id) := by
  unfold remove at hr
  rw [List.mem_filter] at hr
  refine ⟨hr.1, fun hdraft hid => ?_⟩
  have hkept := hr.2
  rw [hdraft, hid] at hkept
  simp at hkept

theorem published_remove (id : Nat) :
    (s.remove id).filter (fun r => !r.draft) = s.published := by
  unfold remove published
  rw [List.filter_filter]
  apply List.filter_congr
  intro r _
  cases r.draft <;> simp

/-- A change that leaves drafts drafts. -/
theorem published_change (id : Nat) {f : GhRelease → GhRelease}
    (hf : ∀ r, (f r).draft = r.draft) :
    (s.change id f).filter (fun r => !r.draft) = s.published := by
  unfold change published
  induction s.releases with
  | nil => rfl
  | cons r rest ih =>
      rw [List.map_cons, List.filter_cons, List.filter_cons, ih]
      by_cases hr : (r.draft && r.id == id) = true
      · have hdraft : r.draft = true := (Bool.and_eq_true _ _ ▸ hr).1
        rw [if_pos hr, hf, hdraft]
        rfl
      · rw [if_neg hr]

theorem mem_change {id : Nat} {f : GhRelease → GhRelease} {r' : GhRelease}
    (hr' : r' ∈ s.change id f) : ∃ r ∈ s.releases,
      (r.draft = true ∧ r.id = id ∧ r' = f r)
        ∨ (¬ (r.draft = true ∧ r.id = id) ∧ r' = r) := by
  unfold change at hr'
  obtain ⟨r, hr, rfl⟩ := List.mem_map.mp hr'
  refine ⟨r, hr, ?_⟩
  by_cases hchanged : (r.draft && r.id == id) = true
  · rw [if_pos hchanged]
    simp only [Bool.and_eq_true, beq_iff_eq] at hchanged
    exact .inl ⟨hchanged.1, hchanged.2, rfl⟩
  · rw [if_neg hchanged]
    simp only [Bool.and_eq_true, beq_iff_eq] at hchanged
    exact .inr ⟨hchanged, rfl⟩

theorem map_id_change (id : Nat) {f : GhRelease → GhRelease}
    (hf : ∀ r, (f r).id = r.id) :
    (s.change id f).map GhRelease.id = s.releases.map GhRelease.id := by
  unfold change
  rw [List.map_map]
  apply List.map_congr_left
  intro r _
  show (if (r.draft && r.id == id) = true then f r else r).id = r.id
  by_cases hr : (r.draft && r.id == id) = true
  · rw [if_pos hr, hf]
  · rw [if_neg hr]

/-- Ids differ, so releases of one id are one release. -/
theorem eq_singleton {id : Nat} {releases : List GhRelease}
    (hdistinct : (releases.map GhRelease.id).Nodup)
    (hid : ∀ r ∈ releases, r.id = id) {r : GhRelease} (hr : r ∈ releases) :
    releases = [r] := by
  match releases with
  | [] => cases hr
  | [only] => rw [List.mem_singleton.mp hr]
  | first :: second :: rest =>
      exfalso
      rw [List.map_cons, List.map_cons, List.nodup_cons] at hdistinct
      apply hdistinct.1
      rw [hid first (by simp), hid second (by simp)]
      exact List.mem_cons_self

end Publishing

-- ================================================================ the invariant

/-- The draft of the job, with the uploads that are not done. -/
structure Uploaded (sha256 : Text → Text) (dist : Dist) (id : Nat)
    (left : List Asset) (r : GhRelease) : Prop where
  draft : r.draft = true
  isId : r.id = id
  body : r.body = dist.notes
  assets : (r.assets ++ left).Perm (dist.assets sha256)

/-- One upload is done. -/
theorem Uploaded.next {dist : Dist} {id k : Nat} {left : List Asset}
    {asset : Asset} {r : GhRelease} (h : Uploaded sha256 dist id left r)
    (hk : left[k]? = some asset) :
    Uploaded sha256 dist id (left.eraseIdx k) (r.addAsset asset) where
  draft := h.draft
  isId := h.isId
  body := h.body
  assets := by
    refine List.Perm.trans ?_ h.assets
    show ((r.assets ++ [asset]) ++ left.eraseIdx k).Perm _
    rw [List.append_assoc]
    apply List.Perm.append_left
    obtain ⟨hlt, rfl⟩ := List.getElem?_eq_some_iff.mp hk
    exact List.getElem_cons_eraseIdx_perm hlt

/-- A release that is all of `dist`. -/
structure Complete (sha256 : Text → Text) (dist : Dist) (r : GhRelease) :
    Prop where
  body : r.body = dist.notes
  assets : r.assets.Perm (dist.assets sha256)
  sums : checkSums sha256 r.assets = true

/-- The draft of the job, with all uploads done and the sums checked. -/
theorem Uploaded.complete {dist : Dist} {id : Nat} {r : GhRelease}
    (h : Uploaded sha256 dist id [] r)
    (hsums : checkSums sha256 r.assets = true) :
    Complete sha256 dist r.setPublic where
  body := h.body
  assets := by
    have hassets := h.assets
    rw [List.append_nil] at hassets
    exact hassets
  sums := hsums

/-- What the job has made of the releases. `started` are the files of the
jobs so far. -/
def PublishJob.Holds (sha256 : Text → Text) (started : Dist → Prop)
    (releases : List GhRelease) : PublishJob → Prop
  | .free => True
  | .downloaded dist => started dist
  | .unpublished dist => started dist ∧ ∀ r ∈ releases, r.draft = true
  | .deleting dist ids =>
      started dist ∧ ∀ r ∈ releases, r.draft = true ∧ r.id ∈ ids
  | .uploading dist id left =>
      started dist ∧ ∀ r ∈ releases, Uploaded sha256 dist id left r
  | .looking dist _ | .checking dist _ =>
      started dist ∧ ∃ id, ∀ r ∈ releases, Uploaded sha256 dist id [] r
  | .verified dist =>
      started dist ∧ ∃ id, ∀ r ∈ releases, Uploaded sha256 dist id [] r
        ∧ checkSums sha256 r.assets = true

theorem PublishJob.Holds.mono {started started' : Dist → Prop}
    {releases releases' : List GhRelease} {job : PublishJob}
    (hstarted : ∀ dist, started dist → started' dist)
    (hsub : releases' ⊆ releases) (h : job.Holds sha256 started releases) :
    job.Holds sha256 started' releases' := by
  cases job with
  | free => trivial
  | downloaded => exact hstarted _ h
  | unpublished | deleting | uploading =>
      exact ⟨hstarted _ h.1, fun r hr => h.2 r (hsub hr)⟩
  | looking | checking | verified =>
      obtain ⟨hdist, id, hall⟩ := h
      exact ⟨hstarted _ hdist, id, fun r hr => hall r (hsub hr)⟩

/-- A job with these files has begun. -/
def Started (h : List (PublishAction × PublishAnswer)) (dist : Dist) : Prop :=
  PublishAction.start dist ∈ h.map Prod.fst

theorem Started.snoc {h : List (PublishAction × PublishAnswer)} {dist : Dist}
    (hdist : Started h dist) (e : PublishAction × PublishAnswer) :
    Started (h ++ [e]) dist := by
  unfold Started
  rw [List.map_append]
  exact List.mem_append_left _ hdist

theorem started_snoc (h : List (PublishAction × PublishAnswer)) (dist : Dist)
    (b : PublishAnswer) : Started (h ++ [(.start dist, b)]) dist := by
  unfold Started
  rw [List.map_append]
  exact List.mem_append_right _ (List.mem_singleton_self _)

/-- Nothing has become public, or one release that is complete, where none
was. `started` are the files it may have. -/
def Released (sha256 : Text → Text) (started : Dist → Prop)
    (before after : List GhRelease) : Prop :=
  after = before
    ∨ before = [] ∧ ∃ r dist, after = [r] ∧ started dist
        ∧ Complete sha256 dist r

theorem Released.mono {started started' : Dist → Prop}
    {before after : List GhRelease}
    (hstarted : ∀ dist, started dist → started' dist)
    (h : Released sha256 started before after) :
    Released sha256 started' before after := by
  obtain h | ⟨hnone, r, dist, hafter, hdist, hcomplete⟩ := h
  · exact .inl h
  · exact .inr ⟨hnone, r, dist, hafter, hstarted dist hdist, hcomplete⟩

/-- Ids differ, and the next one is new. -/
structure Publishing.Ids (s : Publishing) : Prop where
  distinct : (s.releases.map GhRelease.id).Nodup
  below : ∀ r ∈ s.releases, r.id < s.nextId

theorem Publishing.Ids.remove {s : Publishing} (hi : s.Ids) (id : Nat)
    (job : PublishJob) :
    Ids { s with releases := s.remove id, job := job } where
  distinct := hi.distinct.sublist (List.filter_sublist.map _)
  below r hr := hi.below r (mem_remove hr).1

theorem Publishing.Ids.change {s : Publishing} (hi : s.Ids) (id : Nat)
    {f : GhRelease → GhRelease} (hf : ∀ r, (f r).id = r.id)
    (job : PublishJob) :
    Ids { s with releases := s.change id f, job := job } where
  distinct := by
    show ((s.change id f).map GhRelease.id).Nodup
    rw [map_id_change id hf]
    exact hi.distinct
  below r' hr' := by
    obtain ⟨r, hr, ⟨-, -, rfl⟩ | ⟨-, rfl⟩⟩ := mem_change hr'
    · rw [hf]
      exact hi.below r hr
    · exact hi.below _ hr

theorem Publishing.Ids.move {s s' : Publishing} {a : PublishAction}
    (hi : s.Ids) (hm : Move sha256 s a s') : s'.Ids := by
  cases hm with
  | started | unpublished | listed | notListed | found | checked | ended =>
      exact ⟨hi.distinct, hi.below⟩
  | deleted => exact hi.remove _ _
  | byHand => exact hi.remove _ _
  | uploaded => exact hi.change _ (GhRelease.addAsset_id _) _
  | madePublic => exact hi.change _ GhRelease.setPublic_id _
  | created dist hat =>
      constructor
      · rw [List.map_cons, List.nodup_cons]
        refine ⟨fun hmem => ?_, hi.distinct⟩
        obtain ⟨r, hr, hid⟩ := List.mem_map.mp hmem
        exact absurd hid (Nat.ne_of_lt (hi.below r hr))
      · rw [List.forall_mem_cons]
        refine ⟨Nat.lt_succ_self _, fun r hr => ?_⟩
        exact Nat.lt_succ_of_lt (hi.below r hr)

theorem Publishing.ids_run {s₀ s : Publishing}
    {h : List (PublishAction × PublishAnswer)}
    (hstart : (publishing sha256 name).start s₀)
    (hrun : (publishing sha256 name).Run s₀ h s) : s.Ids := by
  refine hrun.keeps ?_ ⟨hstart.2.1, hstart.2.2⟩
  intro s a b s' _ hi hst
  exact hi.move (step_move hst)

/-- What holds after the history `h`. -/
structure PublishInv (sha256 : Text → Text) (s₀ : Publishing)
    (h : List (PublishAction × PublishAnswer)) (s : Publishing) : Prop where
  released : Released sha256 (Started h) s₀.published s.published
  job : s.job.Holds sha256 (Started h) s.releases

namespace PublishInv

variable {s₀ s : Publishing} {h : List (PublishAction × PublishAnswer)}

/-- A step of the job alone. -/
theorem onJob (hi : PublishInv sha256 s₀ h s) {job : PublishJob}
    (e : PublishAction × PublishAnswer)
    (hjob : job.Holds sha256 (Started (h ++ [e])) s.releases) :
    PublishInv sha256 s₀ (h ++ [e]) { s with job := job } where
  released := hi.released.mono fun _ hdist => hdist.snoc e
  job := hjob

/-- A step that removes a draft. -/
theorem remove (hi : PublishInv sha256 s₀ h s) {job : PublishJob} (id : Nat)
    (e : PublishAction × PublishAnswer)
    (hjob : job.Holds sha256 (Started (h ++ [e])) (s.remove id)) :
    PublishInv sha256 s₀ (h ++ [e])
      { s with releases := s.remove id, job := job } where
  released := by
    show Released _ _ _ ((s.remove id).filter fun r => !r.draft)
    rw [Publishing.published_remove]
    exact hi.released.mono fun _ hdist => hdist.snoc e
  job := hjob

theorem move {s' : Publishing} {a : PublishAction} (b : PublishAnswer)
    (hi : PublishInv sha256 s₀ h s) (hids : s.Ids)
    (hm : Publishing.Move sha256 s a s')
    (hlisted : ∀ missed, a = .list missed → missed = []) :
    PublishInv sha256 s₀ (h ++ [(a, b)]) s' := by
  have hjob := hi.job
  have hstarted : ∀ dist, Started h dist → Started (h ++ [(a, b)]) dist :=
    fun dist hdist => hdist.snoc (a, b)
  cases hm with
  | started dist hat => exact hi.onJob _ (started_snoc h dist b)
  | unpublished lookup dist hat hnone =>
      rw [hat] at hjob
      exact hi.onJob _ ⟨hstarted dist hjob, Publishing.isPublic_eq_false.mp hnone⟩
  | listed missed dist hat =>
      rw [hat] at hjob
      obtain rfl := hlisted missed rfl
      refine hi.onJob _ ⟨hstarted dist hjob.1, fun r hr => ⟨hjob.2 r hr, ?_⟩⟩
      apply List.mem_map_of_mem
      unfold Publishing.drafts
      rw [List.mem_filter]
      exact ⟨hr, by simp [hjob.2 r hr]⟩
  | deleted dist id ids hat =>
      rw [hat] at hjob
      refine hi.remove id _ ⟨hstarted dist hjob.1, fun r hr => ?_⟩
      obtain ⟨hmem, hother⟩ := Publishing.mem_remove hr
      obtain ⟨hdraft, hid⟩ := hjob.2 r hmem
      exact ⟨hdraft, List.mem_of_ne_of_mem (hother hdraft) hid⟩
  | created dist hat =>
      rw [hat] at hjob
      have hempty : s.releases = [] := by
        rw [List.eq_nil_iff_forall_not_mem]
        intro r hr
        exact List.not_mem_nil (hjob.2 r hr).2
      constructor
      · show Released _ _ _ (List.filter _ (_ :: s.releases))
        rw [List.filter_cons_of_neg (by simp)]
        exact hi.released.mono hstarted
      · refine ⟨hstarted dist hjob.1, ?_⟩
        rw [hempty, List.forall_mem_singleton]
        exact ⟨rfl, rfl, rfl, List.Perm.refl _⟩
  | uploaded k dist id left asset hat hk =>
      rw [hat] at hjob
      have hall : ∀ r ∈ s.change id (GhRelease.addAsset asset),
          Uploaded sha256 dist id (left.eraseIdx k) r := by
        intro r' hr'
        obtain ⟨r, hr, ⟨-, -, rfl⟩ | ⟨hnot, -⟩⟩ := Publishing.mem_change hr'
        · exact (hjob.2 r hr).next hk
        · have hr := hjob.2 r hr
          exact absurd ⟨hr.draft, hr.isId⟩ hnot
      constructor
      · show Released _ _ _ ((s.change id (GhRelease.addAsset asset)).filter _)
        rw [Publishing.published_change id (GhRelease.addAsset_draft asset)]
        exact hi.released.mono hstarted
      · show (Publishing.afterUpload dist id (left.eraseIdx k)).Holds _ _ _
        unfold Publishing.afterUpload
        by_cases hlast : (left.eraseIdx k).isEmpty = true
        · rw [if_pos hlast]
          rw [List.isEmpty_iff.mp hlast] at hall
          exact ⟨hstarted dist hjob.1, id, hall⟩
        · rw [if_neg hlast]
          exact ⟨hstarted dist hjob.1, hall⟩
  | notListed missed dist attempt hat =>
      rw [hat] at hjob
      exact hi.onJob _ ⟨hstarted dist hjob.1, hjob.2⟩
  | found missed dist attempt draft hat =>
      rw [hat] at hjob
      exact hi.onJob _ ⟨hstarted dist hjob.1, hjob.2⟩
  | checked dist draft r hat hr hsums =>
      rw [hat] at hjob
      obtain ⟨hdist, id, hall⟩ := hjob
      have hmem : r ∈ s.releases := List.mem_of_find?_eq_some hr
      have honly : s.releases = [r] :=
        Publishing.eq_singleton hids.distinct (fun r hr => (hall r hr).isId) hmem
      refine hi.onJob _ ⟨hstarted dist hdist, id, ?_⟩
      rw [honly, List.forall_mem_singleton]
      exact ⟨hall r hmem, hsums⟩
  | madePublic id dist r hat hnone hr =>
      rw [hat] at hjob
      obtain ⟨hdist, id', hall⟩ := hjob
      have hmem : r ∈ s.releases := List.mem_of_find?_eq_some hr
      have hfound := List.find?_some hr
      have honly : s.releases = [r] := Publishing.eq_singleton hids.distinct
        (fun r hr => (hall r hr).1.isId) hmem
      have hchange : s.change id GhRelease.setPublic = [r.setPublic] := by
        unfold Publishing.change
        rw [honly, List.map_singleton, if_pos hfound]
      obtain ⟨huploaded, hsums⟩ := hall r hmem
      have hbefore : s₀.published = [] := by
        have hafter := Publishing.published_eq_nil.mpr
          (Publishing.isPublic_eq_false.mp hnone)
        obtain h | ⟨h, -⟩ := hi.released
        · rw [← h, hafter]
        · exact h
      constructor
      · refine .inr ⟨hbefore, r.setPublic, dist, ?_,
          hstarted dist hdist, huploaded.complete hsums⟩
        show (s.change id GhRelease.setPublic).filter _ = _
        rw [hchange]
        rfl
      · trivial
  | byHand id =>
      refine hi.remove id _ (hjob.mono hstarted ?_)
      exact fun r hr => (Publishing.mem_remove hr).1
  | ended => exact hi.onJob _ trivial

end PublishInv

-- ==================================================================== the result

/-- What is public of the tag is what was public before or, where nothing
was, one release with all the files of a job. The step that deletes leftover
drafts has to be told of every one. -/
theorem public_is_verified {s₀ s : Publishing}
    {h : List (PublishAction × PublishAnswer)}
    (hstart : (publishing sha256 name).start s₀)
    (hrun : (publishing sha256 name).Run s₀ h s)
    (hlisted : ∀ e ∈ h, ∀ missed, e.1 = .list missed → missed = []) :
    Released sha256 (Started h) s₀.published s.published := by
  have hinv : PublishInv sha256 s₀ h s := by
    induction hrun with
    | nil =>
        refine ⟨.inl rfl, ?_⟩
        rw [hstart.1]
        trivial
    | snoc hrun hst ih =>
        rw [List.forall_mem_append, List.forall_mem_singleton] at hlisted
        exact (ih hlisted.1).move _ (Publishing.ids_run hstart hrun)
          (Publishing.step_move hst) hlisted.2
  exact hinv.released

/-- SHA-256 of the files below. -/
def sha256Of (data : Text) : Text :=
  if data = "abc".toList then
    "ba7816bf8f01cfea414140de5dae2223b00361a396177a9cb410ff61f20015ad".toList
  else
    "e3b0c44298fc1c149afbf4c8996fb92427ae41e4649b934ca495991b7852b855".toList

def firstDist : Dist := ⟨"abc".toList, [], [], by decide⟩
def secondDist : Dist := ⟨[], "abc".toList, "notes".toList, by decide⟩

def notFound : GhAnswer := .failed 1 "gh: Not Found (HTTP 404)".toList

/-- A job that stops in its uploads, and one that is started again. -/
def publishTwice : List PublishAction :=
  [.start firstDist, .require notFound, .list [], .create, .upload 2, .stop,
    .start secondDist, .require notFound, .list [], .delete, .create,
    .upload 1, .upload 0, .upload 0, .look [1], .look [], .check,
    .makePublic 1]

def noReleases : Publishing := ⟨[], 0, .free⟩

theorem publishTwice_runs :
    ((publishing sha256Of "v1.0.0".toList).exec noReleases publishTwice).isSome
      = true := by
  decide

def twicePublished : List (PublishAction × PublishAnswer) × Publishing :=
  ((publishing sha256Of "v1.0.0".toList).exec noReleases publishTwice).get
    publishTwice_runs

theorem twicePublished_published : twicePublished.2.published ≠ [] := by
  decide

theorem public_is_verified_twicePublished : ∃ r dist,
    twicePublished.2.published = [r] ∧ Started twicePublished.1 dist
      ∧ Complete sha256Of dist r := by
  have hexec : (publishing sha256Of "v1.0.0".toList).exec noReleases
      publishTwice = some (twicePublished.1, twicePublished.2) :=
    (Option.some_get publishTwice_runs).symm
  have hlisted : ∀ e ∈ twicePublished.1, ∀ missed,
      e.1 = .list missed → missed = [] := by
    intro e he missed hlist
    have hmem : e.1 ∈ publishTwice := by
      rw [← Machine.exec_actions _ hexec]
      exact List.mem_map_of_mem he
    rw [hlist] at hmem
    simpa [publishTwice] using hmem
  have hstart : (publishing sha256Of "v1.0.0".toList).start noReleases :=
    ⟨rfl, List.nodup_nil, List.forall_mem_nil _⟩
  have hreleased := public_is_verified hstart (.of_exec hexec) hlisted
  obtain h | ⟨-, hone⟩ := hreleased
  · exact absurd h twicePublished_published
  · exact hone

end RestifyCapl.Ci
