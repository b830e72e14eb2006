/-
The kinds of lines of CHANGELOG.md: a heading is no link definition, a
hash heading is a heading, a definition of a commit is a link definition;
and of which kind the lines are that `generate` writes.
-/
import RestifyCapl.Ci.Generate
import RestifyCapl.Ci.Proofs.Printed

namespace RestifyCapl.Ci

variable {t line : Text}

-- ================================================================ patterns

theorem atEnd_line {α : Type} (pattern : Text → Option α) (h : '\n' ∉ t) :
    atEnd pattern t = pattern t := by
  unfold atEnd
  cases hfound : pattern t with
  | some found => rfl
  | none =>
      rw [if_neg]
      intro hlast
      exact h (List.mem_of_getLast? hlast)

/-- What holds of a text that fits up to a final line feed holds of what
fits. -/
theorem atEnd_some {α : Type} {pattern : Text → Option α} {found : α}
    (h : atEnd pattern t = some found) :
    pattern t = some found
      ∨ t.getLast? = some '\n' ∧ pattern t.dropLast = some found := by
  unfold atEnd at h
  split at h
  next hfound =>
    cases h
    exact Or.inl hfound
  next =>
    split at h
    next hlast => exact Or.inr ⟨hlast, h⟩
    next => cases h

/-- What a pattern says of all it finds holds of what is found. -/
theorem of_atEnd {α : Type} {pattern : Text → Option α} {found : α} {p : Prop}
    (hpattern : ∀ t, pattern t = some found → p)
    (h : atEnd pattern t = some found) : p := by
  rcases atEnd_some h with h | ⟨-, h⟩
  · exact hpattern _ h
  · exact hpattern _ h

theorem fits_cons (p : Char → Bool) (ps : Pattern) (c : Char) (t : Text) :
    fits (p :: ps) (c :: t) = (p c && fits ps t) := rfl

theorem fits_append_iff {ps qs : Pattern} :
    fits (ps ++ qs) t = true
      ↔ ∃ a b, t = a ++ b ∧ fits ps a = true ∧ fits qs b = true := by
  induction ps generalizing t with
  | nil =>
      constructor
      · exact fun h => ⟨[], t, rfl, rfl, h⟩
      · rintro ⟨a, b, rfl, ha, hb⟩
        cases a with
        | nil => exact hb
        | cons c a => cases ha
  | cons p ps ih =>
      constructor
      · intro h
        cases t with
        | nil => cases h
        | cons c t =>
            rw [List.cons_append, fits_cons, Bool.and_eq_true, ih] at h
            obtain ⟨hc, a, b, rfl, ha, hb⟩ := h
            exact ⟨c :: a, b, rfl, by rw [fits_cons, hc, ha]; rfl, hb⟩
      · rintro ⟨a, b, rfl, ha, hb⟩
        cases a with
        | nil => cases ha
        | cons c a =>
            rw [fits_cons, Bool.and_eq_true] at ha
            rw [List.cons_append, List.cons_append, fits_cons, ha.1,
              ih.mpr ⟨a, b, rfl, ha.2, hb⟩]
            rfl

theorem fits_length {ps : Pattern} (h : fits ps t = true) :
    t.length = ps.length := by
  induction ps generalizing t with
  | nil =>
      cases t with
      | nil => rfl
      | cons c t => cases h
  | cons p ps ih =>
      cases t with
      | nil => cases h
      | cons c t =>
          rw [fits_cons, Bool.and_eq_true] at h
          rw [List.length_cons, List.length_cons, ih h.2]

theorem fits_literal_iff {s : String} :
    fits (literal s) t = true ↔ t = s.toList := by
  unfold literal
  induction s.toList generalizing t with
  | nil => cases t <;> simp [fits]
  | cons c s ih => cases t <;> simp [fits, ih]

theorem fits_replicate {p : Char → Bool} {n : Nat} (hlength : t.length = n)
    (h : ∀ c ∈ t, p c = true) : fits (List.replicate n p) t = true := by
  induction t generalizing n with
  | nil =>
      rw [← hlength]
      rfl
  | cons c t ih =>
      obtain ⟨hc, ht⟩ := List.forall_mem_cons.mp h
      rw [← hlength, List.length_cons, List.replicate_succ, fits_cons, hc,
        ih rfl ht]
      rfl

/-- A text that fits classes fits wider ones. -/
theorem fits_mono {ps qs : Pattern} (hlength : ps.length = qs.length)
    (h : ∀ p ∈ ps.zip qs, ∀ c, p.1 c = true → p.2 c = true)
    (hfits : fits ps t = true) : fits qs t = true := by
  induction ps generalizing qs t with
  | nil =>
      rw [List.length_nil, eq_comm, List.length_eq_zero_iff] at hlength
      rw [hlength]
      exact hfits
  | cons p ps ih =>
      cases qs with
      | nil => cases hlength
      | cons q qs =>
          cases t with
          | nil => cases hfits
          | cons c t =>
              rw [fits_cons, Bool.and_eq_true] at hfits ⊢
              rw [List.zip_cons_cons, List.forall_mem_cons] at h
              exact ⟨h.1 c hfits.1, ih (Nat.succ.inj hlength) h.2 hfits.2⟩

theorem fits_mem {ps : Pattern} (h : fits ps t = true) {c : Char} (hc : c ∈ t) :
    ∃ p ∈ ps, p c = true := by
  induction ps generalizing t with
  | nil =>
      cases t with
      | nil => cases hc
      | cons d t => cases h
  | cons p ps ih =>
      cases t with
      | nil => cases hc
      | cons d t =>
          rw [fits_cons, Bool.and_eq_true] at h
          rcases List.mem_cons.mp hc with rfl | hmem
          · exact ⟨p, List.mem_cons_self, h.1⟩
          · obtain ⟨q, hq, hqc⟩ := ih h.2 hmem
            exact ⟨q, List.mem_cons_of_mem _ hq, hqc⟩

/-- A pattern that begins with a literal. -/
theorem fits_replicate_iff {p : Char → Bool} {n : Nat} :
    fits (List.replicate n p) t = true ↔ t.length = n ∧ ∀ c ∈ t, p c = true := by
  constructor
  · intro h
    refine ⟨by rw [fits_length h, List.length_replicate], fun c hc => ?_⟩
    obtain ⟨q, hq, hqc⟩ := fits_mem h hc
    rwa [(List.mem_replicate.mp hq).2] at hqc
  · exact fun h => fits_replicate h.1 h.2

theorem fits_literal_append {s : String} {ps : Pattern}
    (h : fits (literal s ++ ps) t = true) : s.toList <+: t := by
  obtain ⟨a, b, rfl, ha, -⟩ := fits_append_iff.mp h
  rw [fits_literal_iff.mp ha]
  exact List.prefix_append _ _

theorem dropCr_isPrefix (t : Text) : dropCr t <+: t := by
  unfold dropCr
  split
  · exact List.dropLast_prefix t
  · exact List.prefix_rfl

-- =================================================================== kinds

theorem reHead_iff : reHead t = true ↔ "## [".toList <+: t :=
  List.isPrefixOf_iff_prefix

/-- A hash heading is a heading. -/
theorem reHead_of_hash {hash : Text} (h : reHashHead t = some hash) :
    reHead t = true := by
  have hfits : ∀ {t'}, headHash t' = some hash → "## [".toList <+: t' := by
    intro t' h
    unfold headHash at h
    dsimp only at h
    split at h
    next hfits =>
      unfold hashHead at hfits
      simp only [List.append_assoc] at hfits
      exact (fits_literal_append hfits).trans (dropCr_isPrefix t')
    next => cases h
  rw [reHead_iff]
  rcases atEnd_some h with h | ⟨-, h⟩
  · exact hfits h
  · exact (hfits h).trans (List.dropLast_prefix t)

theorem reDefHash_head {hash : Text} (h : reDefHash t = some hash) :
    t.head? = some '[' := by
  unfold reDefHash at h
  split at h
  next hfits =>
    unfold defHash at hfits
    simp only [List.append_assoc] at hfits
    obtain ⟨rest, hrest⟩ :=
      (fits_literal_append hfits).trans (List.take_prefix 15 t)
    rw [← hrest]
    rfl
  next => cases h

theorem reLinkDef_bracket (rest : Text) :
    reLinkDef ('[' :: rest) =
      match rest.dropWhile (· != ']') with
      | ']' :: ':' :: target =>
          !(rest.takeWhile (· != ']')).isEmpty
            && (target.dropWhile isBlankChar).head?.any fun c => !isWhiteSpace c
      | _ => false := rfl

theorem reLinkDef_head (h : reLinkDef t = true) : t.head? = some '[' := by
  unfold reLinkDef at h
  split at h
  · rfl
  · cases h

theorem reHead_head (h : reHead t = true) : t.head? = some '#' := by
  obtain ⟨rest, rfl⟩ := reHead_iff.mp h
  rfl

/-- A heading is no link definition. -/
theorem not_linkDef_of_head (h : reHead t = true) : reLinkDef t = false := by
  by_contra hdef
  rw [Bool.not_eq_false] at hdef
  have := (reHead_head h).symm.trans (reLinkDef_head hdef)
  cases this

/-- A line that is no heading and no definition, by how it begins. -/
structure Neutral (line : Text) : Prop where
  noHash : line.head? ≠ some '['
  noHead : reHead line = false

theorem Neutral.endsSection (h : Neutral line) : endsSection line = false := by
  unfold Ci.endsSection
  rw [h.noHead, Bool.false_or]
  by_contra hdef
  rw [Bool.not_eq_false] at hdef
  exact h.noHash (reLinkDef_head hdef)

theorem Neutral.reHashHead (h : Neutral line) : reHashHead line = none := by
  cases hhead : Ci.reHashHead line with
  | none => rfl
  | some hash =>
      have := reHead_of_hash hhead
      rw [h.noHead] at this
      cases this

theorem Neutral.reDefHash (h : Neutral line) : reDefHash line = none := by
  cases hdef : Ci.reDefHash line with
  | none => rfl
  | some hash => exact absurd (reDefHash_head hdef) h.noHash

theorem neutral_of_head (h : line.head? ≠ some '[')
    (h' : line.head? ≠ some '#') : Neutral line where
  noHash := h
  noHead := by
    by_contra hhead
    rw [Bool.not_eq_false] at hhead
    exact h' (reHead_head hhead)

-- ==================================================================== URLs

/-- What `takeRepoUrl` takes. -/
structure IsRepoUrl (url : Text) : Prop where
  parts : ∃ owner name, url = "https://github.com/".toList ++ owner ++ '/' :: name
    ∧ owner ≠ [] ∧ name ≠ [] ∧ (∀ c ∈ owner, isUrlChar c = true)
    ∧ ∀ c ∈ name, isUrlChar c = true

theorem takeRepoUrl_some {url rest : Text}
    (h : takeRepoUrl t = some (url, rest)) :
    t = url ++ rest ∧ IsRepoUrl url := by
  unfold takeRepoUrl at h
  dsimp only at h
  split at h
  next hhost =>
    obtain ⟨tail, rfl⟩ := List.isPrefixOf_iff_prefix.mp hhost
    rw [List.drop_left] at h
    split at h
    next after hafter =>
      split at h
      next => cases h
      next hne =>
        simp only [Bool.or_eq_true, List.isEmpty_iff, not_or] at hne
        cases h
        have htail : tail = tail.takeWhile isUrlChar ++ '/' :: after := by
          rw [← hafter, List.takeWhile_append_dropWhile]
        refine ⟨?_, _, _, rfl, hne.1, hne.2, fun c => List.mem_takeWhile_imp,
          fun c => List.mem_takeWhile_imp⟩
        rw [List.append_assoc, List.append_assoc, List.cons_append,
          List.takeWhile_append_dropWhile, ← htail]
    next => cases h
  next => cases h

theorem takeRepoUrl_append {url rest : Text} (h : IsRepoUrl url)
    (hrest : ∀ c ∈ rest.head?, isUrlChar c = false) :
    takeRepoUrl (url ++ rest) = some (url, rest) := by
  obtain ⟨owner, name, rfl, hownerNe, hnameNe, howner, hname⟩ := h
  have hpath : ("https://github.com/".toList ++ owner ++ '/' :: name ++ rest).drop
      "https://github.com/".toList.length = owner ++ '/' :: (name ++ rest) := by
    rw [List.append_assoc, List.append_assoc, List.drop_left]
    rfl
  have hownerTake : (owner ++ '/' :: (name ++ rest)).takeWhile isUrlChar
      = owner := by
    rw [List.takeWhile_append_of_pos howner, List.takeWhile_cons_of_neg (by decide),
      List.append_nil]
  have hownerDrop : (owner ++ '/' :: (name ++ rest)).dropWhile isUrlChar
      = '/' :: (name ++ rest) := by
    rw [List.dropWhile_append_of_pos howner, List.dropWhile_cons_of_neg (by decide)]
  have hnameTake : (name ++ rest).takeWhile isUrlChar = name := by
    rw [List.takeWhile_append_of_pos hname]
    cases rest with
    | nil => simp
    | cons c rest =>
        rw [List.takeWhile_cons_of_neg (by simpa using hrest c rfl),
          List.append_nil]
  have hnameDrop : (name ++ rest).dropWhile isUrlChar = rest := by
    rw [List.dropWhile_append_of_pos hname]
    cases rest with
    | nil => rfl
    | cons c rest =>
        rw [List.dropWhile_cons_of_neg (by simpa using hrest c rfl)]
  unfold takeRepoUrl
  dsimp only
  rw [if_pos, hpath, hownerTake, hownerDrop]
  · show (if (owner.isEmpty || ((name ++ rest).takeWhile isUrlChar).isEmpty)
      = true then none else some (_, _)) = some (_, _)
    rw [hnameTake, hnameDrop, if_neg (by simp [hownerNe, hnameNe])]
  · rw [List.isPrefixOf_iff_prefix, List.append_assoc, List.append_assoc]
    exact List.prefix_append _ _

-- ========================================================== what is written

/-- A line ending without its line feed. -/
def IsCr (cr : Text) : Prop := cr = [] ∨ cr = ['\r']

theorem isCr_crOf (reference : Text) : IsCr (crOf reference) := by
  unfold crOf
  split
  · exact Or.inr rfl
  · exact Or.inl rfl

theorem IsCr.blank {cr : Text} (h : IsCr cr) : reBlank cr = true := by
  rcases h with rfl | rfl <;> decide

theorem IsCr.neutral {cr : Text} (h : IsCr cr) : Neutral cr := by
  rcases h with rfl | rfl <;> exact neutral_of_head (by decide) (by decide)

theorem IsCr.oneLine {cr : Text} (h : IsCr cr) : '\n' ∉ cr := by
  rcases h with rfl | rfl <;> decide

theorem dropCr_append {cr : Text} (hcr : IsCr cr) (h : t.getLast? ≠ some '\r') :
    dropCr (t ++ cr) = t := by
  unfold dropCr
  rcases hcr with rfl | rfl
  · rw [List.append_nil, if_neg h]
  · simp

/-- A line with a character before its end is not blank. -/
theorem reBlank_cons {c : Char} (hblank : isBlankChar c = false) (hcr : c ≠ '\r')
    (hlf : c ≠ '\n') : reBlank (c :: t) = false := by
  have hall : ∀ t, ((dropCr (c :: t)).all isBlankChar) = false := by
    intro t
    have hprefix := dropCr_isPrefix (c :: t)
    cases hdrop : dropCr (c :: t) with
    | nil =>
        unfold dropCr at hdrop
        split at hdrop
        next hlast =>
          cases t with
          | nil =>
              rw [List.getLast?_singleton, Option.some.injEq] at hlast
              exact absurd hlast hcr
          | cons d t => cases hdrop
        next => cases hdrop
    | cons d rest =>
        rw [hdrop] at hprefix
        rw [(List.cons_prefix_cons.mp hprefix).1, List.all_cons, hblank,
          Bool.false_and]
  by_contra hblankLine
  rw [Bool.not_eq_false] at hblankLine
  obtain ⟨found, hfound⟩ := Option.isSome_iff_exists.mp hblankLine
  rcases atEnd_some hfound with h | ⟨hlast, h⟩
  · rw [hall t, if_neg (by decide)] at h
    cases h
  · cases t with
    | nil =>
        rw [List.getLast?_singleton, Option.some.injEq] at hlast
        exact hlf hlast
    | cons d t =>
        rw [List.dropLast_cons_of_ne_nil (by simp), hall, if_neg (by decide)] at h
        cases h

/-- Twelve digits of a hash. -/
def IsShort (t : Text) : Prop := t.length = 12 ∧ ∀ c ∈ t, isHex c = true

theorem isShort_getPrefix {base : Text} (h : IsSha base) :
    IsShort (getPrefix base 12) := by
  unfold getPrefix
  refine ⟨by rw [List.length_take, h.1]; rfl, fun c hc => h.2 c ?_⟩
  exact List.mem_of_mem_take hc

theorem fits_defHash {short : Text} (h : IsShort short) :
    fits defHash ('[' :: short ++ "]:".toList) = true := by
  unfold defHash
  rw [List.append_assoc, fits_append_iff]
  refine ⟨['['], short ++ "]:".toList, rfl, by decide, ?_⟩
  rw [fits_append_iff]
  exact ⟨short, _, rfl, fits_replicate h.1 h.2, by decide⟩

theorem linkDefinition_eq (short base repo cr : Text) :
    linkDefinition short base repo ++ cr
      = ('[' :: short ++ "]:".toList)
        ++ ' ' :: (repo ++ ("/commit/".toList ++ base ++ cr)) := by
  simp [linkDefinition]

theorem length_opening {short : Text} (h : IsShort short) :
    ('[' :: short ++ "]:".toList).length = 15 := by
  simp [h.1]

theorem defHash_eq (h : fits defHash t = true) :
    ∃ short, IsShort short ∧ t = '[' :: short ++ "]:".toList := by
  unfold defHash at h
  rw [List.append_assoc] at h
  obtain ⟨a, b, rfl, ha, hb⟩ := fits_append_iff.mp h
  obtain ⟨short, c, rfl, hshort, hc⟩ := fits_append_iff.mp hb
  rw [fits_literal_iff.mp ha, fits_literal_iff.mp hc]
  exact ⟨short, fits_replicate_iff.mp hshort, rfl⟩

theorem hash_of_opening {short : Text} (h : IsShort short) (rest : Text) :
    ((('[' :: short ++ "]:".toList) ++ rest).drop 1).take 12 = short := by
  have hdrop : (('[' :: short ++ "]:".toList) ++ rest).drop 1
      = short ++ ("]:".toList ++ rest) := by simp
  rw [hdrop, List.take_left' h.1]

/-- A definition of a hash begins with it. -/
theorem reDefHash_iff {short : Text} (h : IsShort short) :
    reDefHash line = some short ↔ ('[' :: short ++ "]:".toList) <+: line := by
  unfold reDefHash
  constructor
  · intro hdef
    split at hdef
    next hfits =>
      obtain ⟨hash, hhash, htake⟩ := defHash_eq hfits
      obtain ⟨rest, hrest⟩ := List.take_prefix 15 line
      rw [htake] at hrest
      rw [← hrest, hash_of_opening hhash, Option.some.injEq] at hdef
      rw [← hdef, ← hrest]
      exact List.prefix_append _ rest
    next => cases hdef
  · rintro ⟨rest, rfl⟩
    rw [List.take_left' (length_opening h), if_pos (fits_defHash h),
      hash_of_opening h]

theorem reDefHash_linkDefinition {short : Text} (h : IsShort short)
    (base repo cr : Text) :
    reDefHash (linkDefinition short base repo ++ cr) = some short := by
  rw [reDefHash_iff h, linkDefinition_eq]
  exact List.prefix_append _ _

/-- A hash in brackets, a colon, blanks and a target. -/
theorem reLinkDef_of_hash {short blanks target : Text} (h : IsShort short)
    (hblanks : ∀ c ∈ blanks, isBlankChar c = true) (htarget : StartsClean target) :
    reLinkDef (('[' :: short ++ "]:".toList) ++ (blanks ++ target)) = true := by
  have hshort : ∀ c ∈ short, (c != ']') = true := by
    intro c hc
    rw [bne_iff_ne]
    rintro rfl
    exact absurd (h.2 _ hc) (by decide)
  have hne : short ≠ [] := by
    rintro rfl
    exact absurd h.1 (by decide)
  obtain ⟨c, hc, hclean⟩ := htarget
  have hblank : isBlankChar c = false := by
    by_contra hblank
    rw [Bool.not_eq_false, isBlankChar, Bool.or_eq_true, beq_iff_eq,
      beq_iff_eq] at hblank
    rcases hblank with rfl | rfl <;> exact absurd hclean (by decide)
  have hname : (short ++ ("]:".toList ++ (blanks ++ target))).dropWhile (· != ']')
      = ']' :: ':' :: (blanks ++ target) := by
    rw [List.dropWhile_append_of_pos hshort]
    rfl
  have htake : (short ++ ("]:".toList ++ (blanks ++ target))).takeWhile (· != ']')
      = short := by
    rw [List.takeWhile_append_of_pos hshort]
    simp
  have hdrop : ((blanks ++ target).dropWhile isBlankChar).head? = some c := by
    rw [List.dropWhile_append_of_pos hblanks]
    cases target with
    | nil => cases hc
    | cons d target =>
        cases hc
        rw [List.dropWhile_cons_of_neg (by simp [hblank])]
        rfl
  rw [List.cons_append, List.cons_append, List.append_assoc, reLinkDef_bracket,
    hname, htake]
  show (!short.isEmpty && ((blanks ++ target).dropWhile isBlankChar).head?.any
    fun c => !isWhiteSpace c) = true
  rw [hdrop]
  simp [hne, hclean]

theorem StartsClean.append {s : Text} (h : StartsClean s) (rest : Text) :
    StartsClean (s ++ rest) := by
  obtain ⟨c, hc, hclean⟩ := h
  refine ⟨c, ?_, hclean⟩
  rw [List.head?_append, hc]
  rfl

theorem reLinkDef_linkDefinition {short repo : Text} (h : IsShort short)
    (hrepo : StartsClean repo) (base cr : Text) :
    reLinkDef (linkDefinition short base repo ++ cr) = true := by
  rw [linkDefinition_eq]
  have hblank : ∀ c ∈ [' '], isBlankChar c = true := by simp [isBlankChar]
  exact reLinkDef_of_hash h hblank (hrepo.append _)

theorem commit_fits {base : Text} (h : IsSha base) :
    fits (literal "/commit/" ++ hex 40) ("/commit/".toList ++ base) = true := by
  rw [fits_append_iff]
  exact ⟨_, _, rfl, fits_literal_iff.mpr rfl, fits_replicate h.1 h.2⟩

theorem IsSha.getLast_ne {base : Text} (h : IsSha base) (s : Text) :
    (s ++ base).getLast? ≠ some '\r' := by
  rw [List.getLast?_append_of_ne_nil _ (sha_ne_nil h)]
  intro hlast
  exact absurd (h.2 _ (List.mem_of_getLast? hlast)) (by decide)

theorem reRepoDef_linkDefinition {short base repo cr : Text} (h : IsShort short)
    (hbase : IsSha base) (hrepo : IsRepoUrl repo) (hline : '\n' ∉ repo)
    (hcr : IsCr cr) :
    reRepoDef (linkDefinition short base repo ++ cr) = some repo := by
  have hlf : '\n' ∉ linkDefinition short base repo ++ cr := by
    have hshort : '\n' ∉ short := fun hmem => absurd (h.2 _ hmem) (by decide)
    have hsha := not_mem_of_isSha hbase (c := '\n') (by decide)
    simp [linkDefinition, hshort, hline, hsha, hcr.oneLine]
  have hdrop : dropCr (linkDefinition short base repo ++ cr)
      = linkDefinition short base repo := by
    apply dropCr_append hcr
    unfold linkDefinition
    exact hbase.getLast_ne _
  have heq := linkDefinition_eq short base repo []
  rw [List.append_nil, List.append_nil] at heq
  have hurl : (' ' :: (repo ++ ("/commit/".toList ++ base))).dropWhile isBlankChar
      = repo ++ ("/commit/".toList ++ base) := by
    obtain ⟨owner, name, rfl, -⟩ := hrepo
    rw [List.dropWhile_cons_of_pos (by decide)]
    rfl
  unfold reRepoDef
  rw [atEnd_line _ hlf]
  unfold defRepoUrl
  dsimp only
  rw [hdrop, heq, List.take_left' (length_opening h), if_pos (fits_defHash h),
    List.drop_left' (length_opening h), hurl,
    takeRepoUrl_append hrepo (by intro c hc; cases hc; decide)]
  exact if_pos (commit_fits hbase)

/-- A hash heading begins with its hash. -/
theorem reHashHead_start {hash : Text} (h : reHashHead line = some hash) :
    IsShort hash ∧ ("## [".toList ++ hash ++ "]".toList) <+: line := by
  have hfound : ∀ {t : Text}, t <+: line → headHash t = some hash →
      IsShort hash ∧ ("## [".toList ++ hash ++ "]".toList) <+: line := by
    intro t hstart h
    unfold headHash at h
    dsimp only at h
    split at h
    next hfits =>
      cases h
      unfold hashHead at hfits
      rw [List.append_assoc, List.append_assoc, fits_append_iff] at hfits
      obtain ⟨a, b, hsplit, ha, hb⟩ := hfits
      obtain ⟨short, c, rfl, hshort, hc⟩ := fits_append_iff.mp hb
      obtain ⟨rest, rfl⟩ := fits_literal_append hc
      have hshort := fits_replicate_iff.mp hshort
      have htake : ((dropCr t).drop 4).take 12 = short := by
        rw [hsplit, fits_literal_iff.mp ha, List.drop_left' (by decide),
          List.take_left' hshort.1]
      rw [htake]
      refine ⟨hshort, List.IsPrefix.trans ?_ ((dropCr_isPrefix t).trans hstart)⟩
      rw [hsplit, fits_literal_iff.mp ha]
      exact ⟨" - ".toList ++ rest, by simp⟩
    next => cases h
  rcases atEnd_some h with h | ⟨-, h⟩
  · exact hfound List.prefix_rfl h
  · exact hfound (List.dropLast_prefix line) h

theorem IsRepoUrl.startsClean {url : Text} (h : IsRepoUrl url) :
    StartsClean url := by
  obtain ⟨owner, name, rfl, -⟩ := h
  exact ⟨'h', rfl, by decide⟩

theorem isUrlChar_lf {s : Text} (h : ∀ c ∈ s, isUrlChar c = true) : '\n' ∉ s :=
  fun hc => absurd (h _ hc) (by decide)

theorem IsRepoUrl.oneLine {url : Text} (h : IsRepoUrl url) : '\n' ∉ url := by
  obtain ⟨owner, name, rfl, -, -, howner, hname⟩ := h
  simp [isUrlChar_lf howner, isUrlChar_lf hname]

/-- A definition of a commit is a link definition of a repository. -/
theorem reRepoDef_some {url : Text} (h : reRepoDef line = some url) :
    reLinkDef line = true ∧ IsRepoUrl url := by
  have hfound : ∀ {t}, t <+: line → defRepoUrl t = some url →
      reLinkDef line = true ∧ IsRepoUrl url := by
    intro t hprefix h
    unfold defRepoUrl at h
    dsimp only at h
    split at h
    next hfits =>
      split at h
      next url' rest htake =>
        split at h
        next =>
          cases h
          obtain ⟨short, hshort, hopening⟩ := defHash_eq hfits
          obtain ⟨hurl, hrepo⟩ := takeRepoUrl_some htake
          obtain ⟨more, rfl⟩ := (dropCr_isPrefix t).trans hprefix
          refine ⟨?_, hrepo⟩
          have hsplit : dropCr t ++ more = ('[' :: short ++ "]:".toList)
              ++ (((dropCr t).drop 15).takeWhile isBlankChar
                ++ (url ++ rest ++ more)) := by
            rw [← hopening, ← hurl, ← List.append_assoc _ _ more,
              List.takeWhile_append_dropWhile, ← List.append_assoc,
              List.take_append_drop]
          rw [hsplit]
          exact reLinkDef_of_hash hshort (fun c => List.mem_takeWhile_imp)
            ((hrepo.startsClean.append rest).append more)
        next => cases h
      next => cases h
    next => cases h
  rcases atEnd_some h with h | ⟨-, h⟩
  · exact hfound List.prefix_rfl h
  · exact hfound (List.dropLast_prefix line) h

theorem reRepoDef_none (h : reLinkDef line = false) : reRepoDef line = none := by
  cases hdef : reRepoDef line with
  | none => rfl
  | some url =>
      have := (reRepoDef_some hdef).1
      rw [h] at this
      cases this

/-- The heading of a generated section. -/
def generatedHeading (short date : Text) : Text :=
  "## [".toList ++ short ++ "] - ".toList ++ date

theorem isDecimalDigit_of_ascii {c : Char} (h : isAsciiDigit c = true) :
    isDecimalDigit c = true := by
  unfold isDecimalDigit digitZeros
  rw [List.any_cons, Bool.or_eq_true]
  exact Or.inl h

theorem fits_dateShape (h : fits (dateShape isAsciiDigit) t = true) :
    fits (dateShape isDecimalDigit) t = true := by
  apply fits_mono (by decide) _ h
  have hdigit : ∀ c, isAsciiDigit c = true → isDecimalDigit c = true :=
    fun c => isDecimalDigit_of_ascii
  simpa [dateShape, literal, List.replicate_succ] using hdigit

theorem mem_date {date : Text} (h : fits (dateShape isAsciiDigit) date = true)
    {c : Char} (hc : c ∈ date) : isAsciiDigit c = true ∨ c = '-' := by
  obtain ⟨p, hp, hpc⟩ := fits_mem h hc
  have hclass : p = isAsciiDigit ∨ p = fun d => d == '-' := by
    simp only [dateShape, literal, List.mem_append, List.mem_replicate] at hp
    rcases hp with (((hp | hp) | hp) | hp) | hp
    · exact Or.inl hp.2
    · exact Or.inr (by simpa using hp)
    · exact Or.inl hp.2
    · exact Or.inr (by simpa using hp)
    · exact Or.inl hp.2
  rcases hclass with rfl | rfl
  · exact Or.inl hpc
  · exact Or.inr (eq_of_beq hpc)

theorem not_mem_date {date : Text} (h : fits (dateShape isAsciiDigit) date = true)
    {c : Char} (hdigit : isAsciiDigit c = false) (hdash : c ≠ '-') : c ∉ date := by
  intro hc
  rcases mem_date h hc with hmem | rfl
  · rw [hdigit] at hmem
    cases hmem
  · exact hdash rfl

theorem generatedHeading_last {date : Text} (short : Text)
    (hdate : fits (dateShape isAsciiDigit) date = true) :
    (generatedHeading short date).getLast? ≠ some '\r' := by
  unfold generatedHeading
  intro hlast
  have hne : date ≠ [] := by
    rintro rfl
    exact absurd (fits_length hdate) (by decide)
  rw [List.getLast?_append_of_ne_nil _ hne] at hlast
  exact not_mem_date hdate (by decide) (by decide) (List.mem_of_getLast? hlast)

theorem reHashHead_heading {short date cr : Text} (h : IsShort short)
    (hdate : fits (dateShape isAsciiDigit) date = true) (hcr : IsCr cr) :
    reHashHead (generatedHeading short date ++ cr) = some short := by
  have hlf : '\n' ∉ generatedHeading short date ++ cr := by
    have hshort : '\n' ∉ short := fun hmem => absurd (h.2 _ hmem) (by decide)
    have hline := not_mem_date hdate (c := '\n') (by decide) (by decide)
    simp [generatedHeading, hshort, hline, hcr.oneLine]
  have hdrop : dropCr (generatedHeading short date ++ cr)
      = generatedHeading short date :=
    dropCr_append hcr (generatedHeading_last short hdate)
  have hfits : fits hashHead (generatedHeading short date) = true := by
    unfold hashHead generatedHeading
    rw [fits_append_iff]
    refine ⟨_, date, rfl, ?_, fits_dateShape hdate⟩
    rw [fits_append_iff]
    refine ⟨_, _, rfl, ?_, by decide⟩
    rw [fits_append_iff]
    exact ⟨_, short, rfl, by decide, fits_replicate h.1 h.2⟩
  have hgroup : ((generatedHeading short date).drop 4).take 12 = short := by
    unfold generatedHeading
    rw [List.append_assoc, List.append_assoc, List.drop_left' (by decide),
      List.take_left' h.1]
  unfold reHashHead
  rw [atEnd_line _ hlf]
  unfold headHash
  dsimp only
  rw [hdrop, if_pos hfits, hgroup]

end RestifyCapl.Ci
