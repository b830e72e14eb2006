/-
As long as nothing is public for a tag, its release can be made
(`release_can_be_made`): the job before is stopped, if there is one, and a
new one started. It deletes whatever jobs have left behind, and with no step
that fails ends with the release public. On the way `sha256sum -c` has to
accept what `sha256sum` wrote, and the checks of the draft what job
`assemble` let through.
-/
import RestifyCapl.Ci.Proofs.Published
import RestifyCapl.Ci.Proofs.PublicVerified

namespace RestifyCapl.Ci

open Lib

variable {sha256 : Text → Text} {name : Text}

-- ================================================================== the sums

/-- What `sha256sum` prints of a file. -/
def IsDigest (t : Text) : Prop := t.length = 64 ∧ ∀ c ∈ t, isHex c = true

theorem toLower_of_isHex {c : Char} (hc : isHex c = true) : c.toLower = c := by
  have hrange : ¬ (65 ≤ c.toNat ∧ c.toNat ≤ 90) := by
    unfold isHex isAsciiDigit inRange at hc
    simp only [Bool.or_eq_true, Bool.and_eq_true, decide_eq_true_eq] at hc
    omega
  have hval : ¬ (c.val ≥ 'A'.val ∧ c.val ≤ 'Z'.val) := by
    intro h
    exact hrange ⟨UInt32.le_iff_toNat_le.mp h.1, UInt32.le_iff_toNat_le.mp h.2⟩
  exact dif_neg hval

theorem IsDigest.lower {t : Text} (h : IsDigest t) : t.map Char.toLower = t := by
  rw [List.map_congr_left fun c hc => toLower_of_isHex (h.2 c hc)]
  exact List.map_id' t

theorem readSum_sumLine {file : Asset} (hdigest : IsDigest (sha256 file.data))
    (hname : file.name ≠ []) :
    readSum (sumLine sha256 file) = some (sha256 file.data, file.name) := by
  have htake : (sumLine sha256 file).take 64 = sha256 file.data := by
    unfold sumLine
    rw [← hdigest.1, List.take_left']
    rfl
  have hdrop : (sumLine sha256 file).drop 64 = ' ' :: ' ' :: file.name := by
    unfold sumLine
    rw [← hdigest.1, List.drop_left']
    rfl
  have hhex : (sha256 file.data).all isHexDigit = true := by
    rw [List.all_eq_true]
    intro c hc
    simp [isHexDigit, hdigest.2 c hc]
  unfold readSum
  rw [htake, hdrop]
  dsimp only
  rw [if_pos ⟨hdigest.1, hhex⟩]
  exact if_pos ⟨.inl rfl, hname⟩

theorem sumLine_oneLine {file : Asset} (hdigest : IsDigest (sha256 file.data))
    (hname : '\n' ∉ file.name) : '\n' ∉ sumLine sha256 file := by
  unfold sumLine
  intro hmem
  rcases List.mem_append.mp hmem with hmem | hmem
  · exact absurd (hdigest.2 _ hmem) (by decide)
  · rw [List.mem_cons, List.mem_cons] at hmem
    rcases hmem with hmem | hmem | hmem
    · exact absurd hmem (by decide)
    · exact absurd hmem (by decide)
    · exact hname hmem

theorem lines_printLines {ls : List Text} (h : ∀ l ∈ ls, '\n' ∉ l) :
    lines (printLines ls) = ls ++ [[]] := by
  induction ls with
  | nil => rfl
  | cons l rest ih =>
      rw [List.forall_mem_cons] at h
      have hprint : printLines (l :: rest) = l ++ '\n' :: printLines rest := by
        simp [printLines]
      rw [hprint, lines_append_newline, lines_line h.1, ih h.2]
      rfl

theorem dlls_names (dist : Dist) : ∀ file ∈ dist.dlls,
    file.name ≠ [] ∧ '\n' ∉ file.name := by
  simp only [Dist.dlls, List.forall_mem_cons, List.not_mem_nil, false_implies,
    implies_true, and_true]
  decide

/-- `sha256sum -c` accepts what `sha256sum` wrote. -/
theorem checkSums_assets (hdigest : ∀ data, IsDigest (sha256 data))
    (dist : Dist) : checkSums sha256 (dist.assets sha256) = true := by
  have hlines : lines (dist.sums sha256)
      = dist.dlls.map (sumLine sha256) ++ [[]] := by
    unfold Dist.sums
    apply lines_printLines
    intro line hline
    obtain ⟨file, hfile, rfl⟩ := List.mem_map.mp hline
    exact sumLine_oneLine (hdigest _) (dlls_names dist file hfile).2
  have hread : (lines (dist.sums sha256)).filterMap readSum
      = dist.dlls.map fun file => (sha256 file.data, file.name) := by
    rw [hlines, List.filterMap_append, List.filterMap_map]
    show List.filterMap (fun file => readSum (sumLine sha256 file)) dist.dlls
        ++ [] = _
    rw [List.append_nil, ← List.filterMap_eq_map]
    apply List.filterMap_congr
    intro file hfile
    exact readSum_sumLine (hdigest _) (dlls_names dist file hfile).1
  have hsums : (dist.assets sha256).find? (fun file => file.name == sumsName)
      = some ⟨sumsName, dist.sums sha256⟩ := by
    rfl
  unfold checkSums
  rw [hsums]
  dsimp only
  rw [hread]
  have hx86 : checkSum sha256 (dist.assets sha256) (sha256 dist.x86, x86Name)
      = true := by
    show (sha256 dist.x86 == _) = true
    rw [(hdigest dist.x86).lower, beq_self_eq_true]
  have hx64 : checkSum sha256 (dist.assets sha256) (sha256 dist.x64, x64Name)
      = true := by
    show (sha256 dist.x64 == _) = true
    rw [(hdigest dist.x64).lower, beq_self_eq_true]
  simp [Dist.dlls, hx86, hx64]

theorem checkDraft_assets (dist : Dist) (id : Nat) :
    checkDraft ⟨id, true, dist.notes, dist.assets sha256⟩ = .ok () := by
  have hnames : [' '].intercalate
      (sortNames ((dist.assets sha256).map Asset.name))
      = "SHA256SUMS restifycapl-x64.dll restifycapl-x86.dll".toList := by
    show [' '].intercalate (sortNames [x86Name, x64Name, sumsName]) = _
    decide
  unfold checkDraft
  dsimp only
  rw [hnames, if_neg (not_not.mpr rfl), if_neg (Nat.not_lt.mpr dist.fits)]

-- =================================================================== the rerun

/-- A step of a job that has begun, and goes on. -/
def PublishAction.atWork : PublishAction → Bool
  | .start _ | .stop | .deleteByHand _ => false
  | _ => true

/-- One job is at work, alone, and no step of it fails. -/
def Unhindered (h : List (PublishAction × PublishAnswer)) : Prop :=
  ∀ e ∈ h, e.1.atWork = true ∧ ∀ err, e.2 ≠ .failed err

/-- An unhindered run from `s` to `s'`. -/
def Leads (sha256 : Text → Text) (name : Text) (s s' : Publishing) : Prop :=
  ∃ h, (publishing sha256 name).Run s h s' ∧ Unhindered h

namespace Leads

variable {s s' s'' : Publishing}

theorem refl (s : Publishing) : Leads sha256 name s s :=
  ⟨[], .nil s, List.forall_mem_nil _⟩

/-- A step that does not fail comes first. -/
theorem step (a : PublishAction) (ha : a.atWork = true)
    (hst : Publishing.step sha256 name s a = some (.done, s'))
    (h : Leads sha256 name s' s'') : Leads sha256 name s s'' := by
  obtain ⟨h, hrun, hunhindered⟩ := h
  refine ⟨(a, .done) :: h, .cons hst hrun, ?_⟩
  refine List.forall_mem_cons.mpr ⟨⟨ha, fun err herr => ?_⟩, hunhindered⟩
  cases herr

end Leads

/-- The steps up to a job with these files: the stop of the one before, if
there is one, and its start. -/
def Restarts (sha256 : Text → Text) (name : Text) (s : Publishing) (dist : Dist)
    (s' : Publishing) : Prop :=
  ∃ h, (publishing sha256 name).Run s h s'
    ∧ h.map Prod.fst
      = (match s.job with
          | .free => [.start dist]
          | _ => [.stop, .start dist])

/-- Whatever the job was at, it can be stopped. -/
theorem restarts (s : Publishing) (dist : Dist) :
    Restarts sha256 name s dist ⟨s.releases, s.nextId, .downloaded dist⟩ := by
  obtain ⟨releases, n, job⟩ := s
  have hstart : (publishing sha256 name).Run ⟨releases, n, .free⟩
      [(.start dist, .done)] ⟨releases, n, .downloaded dist⟩ :=
    .cons rfl (.nil _)
  cases job with
  | free => exact ⟨_, hstart, rfl⟩
  | downloaded | unpublished | deleting | uploading | looking | checking
  | verified => exact ⟨_, .cons rfl hstart, rfl⟩

theorem leads_required {releases : List GhRelease} {n : Nat} {dist : Dist}
    {s : Publishing} (hdrafts : ∀ r ∈ releases, r.draft = true)
    (h : Leads sha256 name ⟨releases, n, .unpublished dist⟩ s) :
    Leads sha256 name ⟨releases, n, .downloaded dist⟩ s := by
  have hpublic : Publishing.isPublic ⟨releases, n, .downloaded dist⟩ = false :=
    Publishing.isPublic_eq_false.mpr hdrafts
  have htells : Publishing.Tells ⟨releases, n, .downloaded dist⟩ notFound
      = true := by
    unfold Publishing.Tells notFound
    dsimp only
    rw [hpublic, Bool.not_false, Bool.or_true]
  have hfound : contains "HTTP 404".toList
      ("gh: Not Found (HTTP 404)".toList.rdropWhile (· == '\n')) = true := by
    decide
  have hcheck : checkUnpublished name notFound = .ok () := by
    unfold checkUnpublished notFound
    exact if_pos hfound
  refine .step (.require notFound) rfl ?_ h
  simp only [Publishing.step, htells, hcheck, if_true]

theorem leads_listed {releases : List GhRelease} {n : Nat} {dist : Dist}
    {s : Publishing} (hdrafts : ∀ r ∈ releases, r.draft = true)
    (h : Leads sha256 name
      ⟨releases, n, .deleting dist (releases.map GhRelease.id)⟩ s) :
    Leads sha256 name ⟨releases, n, .unpublished dist⟩ s := by
  have hall : Publishing.drafts ⟨releases, n, .unpublished dist⟩ [] = releases := by
    unfold Publishing.drafts
    rw [List.filter_eq_self]
    intro r hr
    simp [hdrafts r hr]
  refine .step (.list []) rfl ?_ h
  simp only [Publishing.step, hall]

/-- The drafts are deleted one by one. -/
theorem leads_deleted {dist : Dist} {n : Nat} {s : Publishing} :
    ∀ {releases : List GhRelease}, (∀ r ∈ releases, r.draft = true) →
      (releases.map GhRelease.id).Nodup →
      Leads sha256 name ⟨[], n, .deleting dist []⟩ s →
      Leads sha256 name
        ⟨releases, n, .deleting dist (releases.map GhRelease.id)⟩ s
  | [], _, _, h => h
  | r :: rest, hdraft, hdistinct, h => by
      rw [List.forall_mem_cons] at hdraft
      rw [List.map_cons, List.nodup_cons] at hdistinct
      have hkept : ∀ r' ∈ rest, r'.draft = false ∨ ¬ r'.id = r.id := by
        intro r' hr'
        refine .inr fun heq => hdistinct.1 ?_
        rw [← heq]
        exact List.mem_map_of_mem hr'
      refine .step .delete rfl ?_ (leads_deleted hdraft.2 hdistinct.2 h)
      simpa [Publishing.step, Publishing.findDraft, Publishing.remove, hdraft.1]
        using hkept

theorem leads_uploaded {dist : Dist} {id n : Nat} {body : Text}
    {assets left : List Asset} {asset : Asset} {s : Publishing}
    (h : Leads sha256 name ⟨[⟨id, true, body, assets ++ [asset]⟩], n,
      Publishing.afterUpload dist id left⟩ s) :
    Leads sha256 name ⟨[⟨id, true, body, assets⟩], n,
      .uploading dist id (asset :: left)⟩ s := by
  refine .step (.upload 0) rfl ?_ h
  simp [Publishing.step, Publishing.findDraft, Publishing.change,
    GhRelease.addAsset]

theorem leads_looked {dist : Dist} {n : Nat} {r : GhRelease} {s : Publishing}
    (hdraft : r.draft = true) (hcheck : checkDraft r = .ok ())
    (h : Leads sha256 name ⟨[r], n, .checking dist r⟩ s) :
    Leads sha256 name ⟨[r], n, .looking dist 1⟩ s := by
  refine .step (.look []) rfl ?_ h
  simp [Publishing.step, Publishing.drafts, Publishing.looked, hdraft, hcheck]

theorem leads_checked {dist : Dist} {n : Nat} {r : GhRelease} {s : Publishing}
    (hdraft : r.draft = true) (hsums : checkSums sha256 r.assets = true)
    (h : Leads sha256 name ⟨[r], n, .verified dist⟩ s) :
    Leads sha256 name ⟨[r], n, .checking dist r⟩ s := by
  refine .step .check rfl ?_ h
  simp [Publishing.step, Publishing.findDraft, hdraft, hsums]

theorem leads_setPublic {dist : Dist} {n : Nat} {r : GhRelease}
    (hdraft : r.draft = true) :
    Leads sha256 name ⟨[r], n, .verified dist⟩ ⟨[r.setPublic], n, .free⟩ := by
  refine .step (.makePublic r.id) rfl ?_ (.refl _)
  simp [Publishing.step, Publishing.edited, Publishing.isPublic,
    Publishing.findDraft, Publishing.change, hdraft]

/-- The job makes its draft, verifies it and makes it public. -/
theorem leads_created (hdigest : ∀ data, IsDigest (sha256 data)) (dist : Dist)
    (n : Nat) : Leads sha256 name ⟨[], n, .deleting dist []⟩
      ⟨[⟨n, false, dist.notes, dist.assets sha256⟩], n + 1, .free⟩ := by
  refine .step .create rfl rfl ?_
  apply leads_uploaded
  apply leads_uploaded
  apply leads_uploaded
  apply leads_looked rfl (checkDraft_assets dist n)
  apply leads_checked rfl (checkSums_assets hdigest dist)
  exact leads_setPublic rfl

/-- As long as nothing is public the release can be made, from wherever the
runs before have left the job and the drafts. -/
theorem release_can_be_made (hdigest : ∀ data, IsDigest (sha256 data))
    {s : Publishing} {h : List (PublishAction × PublishAnswer)}
    (hreach : (publishing sha256 name).Reach h s) (hnone : s.published = [])
    (dist : Dist) : ∃ begun id, Restarts sha256 name s dist begun
      ∧ Leads sha256 name begun
        ⟨[⟨id, false, dist.notes, dist.assets sha256⟩], id + 1, .free⟩ := by
  obtain ⟨s₀, hstart, hrun⟩ := hreach
  have hids := Publishing.ids_run hstart hrun
  have hdrafts := Publishing.published_eq_nil.mp hnone
  refine ⟨_, s.nextId, restarts s dist, ?_⟩
  apply leads_required hdrafts
  apply leads_listed hdrafts
  apply leads_deleted hdrafts hids.distinct
  exact leads_created hdigest dist s.nextId

theorem isDigest_iff {t : Text} :
    IsDigest t ↔ t.length = 64 ∧ t.all isHex = true := by
  unfold IsDigest
  rw [List.all_eq_true]

theorem isDigest_sha256Of (data : Text) : IsDigest (sha256Of data) := by
  unfold sha256Of
  rw [isDigest_iff]
  split
  next => decide
  next => decide

/-- After the uploads that were broken off. -/
def brokenOff : List PublishAction :=
  [.start firstDist, .require notFound, .list [], .create, .upload 2]

theorem brokenOff_runs :
    ((publishing sha256Of "v1.0.0".toList).exec noReleases brokenOff).isSome
      = true := by
  decide

def leftBroken : List (PublishAction × PublishAnswer) × Publishing :=
  ((publishing sha256Of "v1.0.0".toList).exec noReleases brokenOff).get
    brokenOff_runs

theorem release_can_be_made_leftBroken : ∃ begun id,
    Restarts sha256Of "v1.0.0".toList leftBroken.2 secondDist begun
      ∧ Leads sha256Of "v1.0.0".toList begun
        ⟨[⟨id, false, secondDist.notes, secondDist.assets sha256Of⟩], id + 1,
          .free⟩ := by
  have hstart : (publishing sha256Of "v1.0.0".toList).start noReleases :=
    ⟨rfl, List.nodup_nil, List.forall_mem_nil _⟩
  have hnone : leftBroken.2.published = [] := by decide
  exact release_can_be_made isDigest_sha256Of (.of_exec hstart brokenOff_runs)
    hnone secondDist

end RestifyCapl.Ci
