/-
The row of a function that no check finds fault with: where it is tame
it says a function, `exists_function_of_checkRows`, and only there,
`RowSays.tame`.

One lemma a check turns its silence into what it looked for, in the
order of the checks; the parameters are put together from the checks 7,
10, 11 and 12.
-/
import RestifyCapl.Export.Functions
import RestifyCapl.Export.Proofs.Signatures

namespace RestifyCapl.Export

open Ci Lib

variable {os : Platform} {consts : Consts} {seen : List Bytes}

-- ============================================================== characters

theorem byteText_getLast {bs : Bytes} {b : UInt8} (h : bs.getLast? ≠ some b) :
    (byteText bs).getLast? ≠ some (Char.ofNat b.toNat) := by
  intro hlast
  rw [byteText, List.getLast?_map, Option.map_eq_some_iff] at hlast
  obtain ⟨c, hc, hcb⟩ := hlast
  have hbytes : byteText [c] = byteText [b] := congrArg (fun x => [x]) hcb
  rw [(List.cons.inj (byteText_inj hbytes)).1] at hc
  exact h hc

theorem printable_of_isIdentChar {c : Char} (h : isIdentChar c = true) :
    0x20 ≤ c.toNat ∧ c.toNat ≤ 0x7E := by
  simp only [isIdentChar, isIdentStart, isAsciiDigit, inRange, Bool.or_eq_true,
    Bool.and_eq_true, decide_eq_true_eq, beq_iff_eq] at h
  rcases h with ((h | h) | rfl) | h
  · omega
  · omega
  · decide
  · omega

theorem printable_append {t u : Text} (ht : Printable t) (hu : Printable u) :
    Printable (t ++ u) := by
  intro c hc
  rcases List.mem_append.mp hc with hc | hc
  · exact ht c hc
  · exact hu c hc

theorem printable_ident {t : Text} (h : ∀ c ∈ t, isIdentChar c = true) :
    Printable t :=
  fun c hc => printable_of_isIdentChar (h c hc)

theorem printable_want1 : Printable want1 := by decide

/-- The signature of `(CAPL_FARCALL)name`. -/
theorem getFieldSig_farCall (ident : Ident) :
    getFieldSig (farCall (.id ident)) = want1 ++ ident.text := by
  simp only [getFieldSig, farCall, List.map_cons, List.map_nil,
    List.intercalate_cons_cons, List.intercalate_singleton]
  rfl

/-- A text that starts with a letter and holds nothing else. -/
theorem isIdentifier_of_opening {t : Text} (hopening : "restify".toList <+: t)
    (h : ∀ c ∈ t, isIdentChar c = true) : isIdentifier t = true := by
  obtain ⟨rest, rfl⟩ := hopening
  show (isIdentStart 'r' && ("estify".toList ++ rest).all isIdentChar) = true
  rw [Bool.and_eq_true, List.all_eq_true]
  exact ⟨by decide, fun c hc => h c (List.mem_cons_of_mem _ hc)⟩

/-- Without a final line feed `$` is the end. -/
theorem isIdentifier_of_reIdentifier {t : Text} (h : reIdentifier t = true)
    (hlast : t.getLast? ≠ some '\n') : isIdentifier t = true := by
  by_contra hident
  have hnone : atEnd (fun t => if isIdentifier t then some () else none) t = none := by
    unfold atEnd
    dsimp only
    rw [if_neg hident, if_neg hlast]
  rw [reIdentifier, hnone] at h
  cases h

-- ============================================================== checks 4-6

theorem of_check4 {raw : Bytes} {f : Field} (h : check4 os (some raw) f = [])
    (hf : Printable (getFieldSig f)) (hident : isIdentifier (byteText raw) = true) :
    f = farCall (.id ⟨byteText raw, hident⟩) := by
  have hceq : os.ceq (getFieldSig f) (want1 ++ byteText raw) = true := by
    by_contra hne
    unfold check4 at h
    rw [if_neg hne] at h
    cases h
  have hwant : Printable (want1 ++ byteText raw) :=
    printable_append printable_want1 (printable_ident (isIdentChar_of_mem hident))
  apply eq_of_plainSig (g := farCall (.id ⟨byteText raw, hident⟩))
  · simp only [farCall, identOf, List.forall_mem_cons]
    exact ⟨by decide, trivial, by decide, trivial, List.forall_mem_nil _⟩
  · rw [getFieldSig_farCall]
    exact os.eq_of_ceq _ _ hf hwant hceq

theorem of_check5 {nameRaw : Option Bytes} (h : check5 seen nameRaw = []) :
    ∃ raw, nameRaw = some raw ∧ "restify".toList <+: byteText raw
      ∧ raw.length ≤ 49 ∧ raw ∉ seen := by
  cases nameRaw with
  | none => cases h
  | some raw =>
      rw [check5, List.append_eq_nil_iff, List.append_eq_nil_iff] at h
      obtain ⟨⟨hopening, hlength⟩, hseen⟩ := h
      refine ⟨raw, rfl, ?_, ?_, ?_⟩
      · by_contra hne
        rw [if_neg hne] at hopening
        cases hopening
      · by_contra hne
        rw [if_pos (by omega)] at hlength
        cases hlength
      · intro hmem
        rw [if_pos hmem] at hseen
        cases hseen

-- ================================================================= check 7

theorem of_checkCount {what extra : Text} {pc : Nat} {list : ListItems}
    (h : checkCount what extra pc list = []) : list.items.length = pc := by
  by_contra hne
  rw [checkCount, if_neg hne] at h
  cases h

theorem of_check7Types {pc : Nat} {list : Option ListItems}
    (h : check7Types pc list = []) : ∃ ts, list = some ts ∧ ts.items.length = pc := by
  cases list with
  | none => cases h
  | some ts => exact ⟨ts, rfl, of_checkCount h⟩

theorem of_check7Dims {pc : Nat} {list : Option ListItems}
    (h : check7Dims pc list = []) : ∃ ds, list = some ds ∧ ds.items.length = pc := by
  cases list with
  | none => cases h
  | some ds => exact ⟨ds, rfl, of_checkCount h⟩

theorem of_check7Names {pc : Nat} {list : Option ListItems}
    (h : check7Names pc list = []) : ∃ ns, list = some ⟨.brace, ns⟩
      ∧ ns.length = pc ∧ ∀ item ∈ ns, (itemName item).isSome = true := by
  match list with
  | none => cases h
  | some ⟨.string, ns⟩ => cases h
  | some ⟨.brace, ns⟩ =>
      rw [check7Names, List.append_eq_nil_iff] at h
      refine ⟨ns, rfl, of_checkCount h.1, ?_⟩
      rw [← List.all_eq_true]
      by_contra hne
      rw [if_neg hne] at h
      cases h.2

theorem of_readParCount {f : Field} {n : Nat} (h : readParCount f = .ok n) :
    f = [.num n] ∧ n ≤ 64 := by
  unfold readParCount at h
  split at h
  next n =>
    split at h
    next => cases h
    next hle =>
      cases h
      exact ⟨rfl, by omega⟩
  next => cases h

/-- What check 7 leaves: no parameters, or a list of entries each. -/
inductive Listed (f5 f6 f7 f8 : Field) : List Parameter → Prop
  | empty (hcount : f5 = [.num 0]) (htypes : f6 = [.str []]) (hdims : f7 = [.str []])
      (hnames : getListItems f8 = some ⟨.brace, [.tokens [.str []]]⟩) :
      Listed f5 f6 f7 f8 []
  | entries {pars : List Parameter} {ts ds : ListItems} {ns : List Item}
      (hcount : f5 = [.num pars.length]) (hne : pars ≠ []) (hle : pars.length ≤ 64)
      (htypes : getListItems f6 = some ts) (hdims : getListItems f7 = some ds)
      (hnames : getListItems f8 = some ⟨.brace, ns⟩)
      (htype : ts.items = pars.map Parameter.type)
      (hdim : ds.items = pars.map Parameter.dimension)
      (hname : ns.map itemName = pars.map fun par => some par.name) :
      Listed f5 f6 f7 f8 pars

/-- Three lists of one length, entry by entry. -/
theorem map_parameters {ts ds : ListItems} {ns : List Item} {pc : Nat}
    (hts : ts.items.length = pc) (hds : ds.items.length = pc) (hns : ns.length = pc)
    (hnames : ∀ item ∈ ns, (itemName item).isSome = true) :
    let pars := parameters (some ts) (some ds) (some ⟨.brace, ns⟩)
    pars.map Parameter.type = ts.items ∧ pars.map Parameter.dimension = ds.items
      ∧ (pars.map fun par => some par.name) = ns.map itemName := by
  have hsome := map_some_filterMap hnames
  have hlen : (ns.filterMap itemName).length = pc := by
    rw [← List.length_map (f := some), hsome, List.length_map, hns]
  intro pars
  have hlens : (ns.filterMap itemName).length = (ts.items.zip ds.items).length := by
    rw [List.length_zip, hlen, hts, hds, min_self]
  have hpars : pars = ((ns.filterMap itemName).zip (ts.items.zip ds.items)).map
      fun entry => ⟨entry.1, entry.2.1, entry.2.2⟩ := rfl
  rw [hpars, List.map_map, List.map_map, List.map_map, ← hsome]
  refine ⟨?_, ?_, ?_⟩
  · show List.map (Prod.fst ∘ Prod.snd) _ = _
    rw [← List.map_map, List.map_snd_zip hlens.ge, List.map_fst_zip (by omega)]
  · show List.map (Prod.snd ∘ Prod.snd) _ = _
    rw [← List.map_map, List.map_snd_zip hlens.ge, List.map_snd_zip (by omega)]
  · show List.map (some ∘ Prod.fst) _ = _
    rw [← List.map_map, List.map_fst_zip hlens.le]

theorem of_check7 {f5 f6 f7 f8 : Field} {pars : List Parameter}
    (h : check7 f5 f6 f7 f8 = .ok pars) : Listed f5 f6 f7 f8 pars := by
  unfold check7 at h
  split at h
  next => cases h
  next hcount =>
    split at h
    next hempty =>
      cases h
      simp only [Bool.and_eq_true, testEmptyStr, okNames, beq_iff_eq] at hempty
      obtain ⟨⟨htypes, hdims⟩, hnames⟩ := hempty
      exact .empty (of_readParCount hcount).1 htypes hdims hnames
    next => cases h
  next pc hpc hcount =>
    dsimp only at h
    split at h
    next hsilent =>
      cases h
      rw [List.append_eq_nil_iff, List.append_eq_nil_iff] at hsilent
      obtain ⟨ts, hts, htslen⟩ := of_check7Types hsilent.1.1
      obtain ⟨ds, hds, hdslen⟩ := of_check7Dims hsilent.1.2
      obtain ⟨ns, hns, hnslen, hstr⟩ := of_check7Names hsilent.2
      obtain ⟨htype, hdim, hname⟩ := map_parameters htslen hdslen hnslen hstr
      obtain ⟨hf5, hle⟩ := of_readParCount hcount
      have hlen : (parameters (some ts) (some ds) (some ⟨.brace, ns⟩)).length = pc := by
        rw [← List.length_map (f := Parameter.type), htype, htslen]
      rw [hts, hds, hns]
      refine .entries (by rw [hlen]; exact hf5) ?_ (by omega) hts hds hns htype.symm
        hdim.symm hname.symm
      intro hnil
      rw [hnil] at hlen
      exact hpc hlen.symm
    next => cases h

theorem check7_error_ne_nil {f5 f6 f7 f8 : Field} {findings : List Finding}
    (h : check7 f5 f6 f7 f8 = .error findings) : findings ≠ [] := by
  unfold check7 at h
  split at h
  next =>
    cases h
    exact List.cons_ne_nil _ _
  next =>
    split at h
    next => cases h
    next =>
      cases h
      exact List.cons_ne_nil _ _
  next =>
    dsimp only at h
    split at h
    next => cases h
    next hloud =>
      cases h
      exact hloud

-- ============================================================= checks 9-12

theorem of_checkReturn {f : Field} (h : checkReturn consts f = []) :
    ∃ cls, resolveTypeItem consts (.tokens f) = .ok cls ∧ cls.ref = false
      ∧ cls.base ∈ returnTypes := by
  unfold checkReturn at h
  split at h
  next => cases h
  next cls hcls =>
    by_cases hok : cls.ref = false ∧ cls.base ∈ returnTypes
    · exact ⟨cls, hcls, hok⟩
    · rw [if_neg hok] at h
      cases h

theorem of_check11 {label : Text} {item : Item} (h : check11 label item = []) :
    ∃ dv, dimensionValue item = some dv ∧ dv ≤ 2 := by
  unfold check11 at h
  split at h
  next => cases h
  next dv hdv =>
    split at h
    next => cases h
    next hle => exact ⟨dv, hdv, by omega⟩

theorem of_checkDimension {label : Text} {cls : TypeClass} {dv : Nat}
    (h : checkDimension label cls dv = []) :
    (cls.base ∈ arrayOnlyTypes → dv ≠ 0) ∧ (cls.ref = true → dv = 0) := by
  rw [checkDimension, List.append_eq_nil_iff] at h
  obtain ⟨hlist, hvalue⟩ := h
  constructor
  · intro harray hzero
    rw [if_pos ⟨harray, hzero⟩] at hlist
    cases hlist
  · intro href
    by_contra hne
    rw [if_pos ⟨href, hne⟩] at hvalue
    cases hvalue

/-- What the row says of one parameter. -/
def ParamSays (consts : Consts) (par : Parameter) (p : Param) : Prop :=
  typeOf consts par.type = some p.type
    ∧ dimensionValue par.dimension = some p.dimension ∧ byteText par.name = p.name

theorem of_checkParameter {label : Text} {par : Parameter}
    (h : checkParameter consts label par = [])
    (hident : isIdentifier (byteText par.name) = true) :
    ∃ p, ParamSays consts par p := by
  rw [checkParameter, List.append_eq_nil_iff] at h
  obtain ⟨dv, hdv, hle⟩ := of_check11 h.1
  have htype := h.2
  split at htype
  next => cases htype
  next cls hcls =>
    rw [List.append_eq_nil_iff, hdv, Option.map_some, Option.getD_some] at htype
    obtain ⟨harray, href⟩ := of_checkDimension htype.1
    have hvoid : cls.base ≠ 'V' := by
      intro hv
      rw [if_pos hv] at htype
      cases htype.2
    refine ⟨⟨byteText par.name, cls, dv, hident, hvoid, hle, ?_, href⟩, ?_, hdv, rfl⟩
    · intro hmem
      have := harray hmem
      omega
    · rw [typeOf, hcls]
      rfl

theorem of_checkParameters {p : Nat} {pars : List Parameter}
    (h : checkParameters os consts p pars = []) :
    ∀ par ∈ pars, ∃ label, checkParameter consts label par = [] := by
  induction pars generalizing p with
  | nil => exact List.forall_mem_nil _
  | cons par pars ih =>
      rw [checkParameters, List.append_eq_nil_iff] at h
      rw [List.forall_mem_cons]
      exact ⟨⟨_, h.1⟩, ih h.2⟩

theorem of_check12 {rowSeen : List Bytes} {p : Nat} {names : List Bytes}
    (h : check12 rowSeen p names = []) :
    names.Nodup ∧ ∀ pn ∈ names, pn ∉ rowSeen ∧ reIdentifier (byteText pn) = true := by
  induction names generalizing rowSeen p with
  | nil => exact ⟨List.nodup_nil, List.forall_mem_nil _⟩
  | cons pn names ih =>
      rw [check12] at h
      split at h
      next => cases h
      next =>
        split at h
        next => cases h
        next hre =>
          split at h
          next => cases h
          next hnew =>
            obtain ⟨hnodup, hall⟩ := ih h
            rw [List.nodup_cons, List.forall_mem_cons]
            refine ⟨⟨?_, hnodup⟩, ⟨hnew, by simpa using hre⟩, ?_⟩
            · exact fun hmem => (hall pn hmem).1 (List.mem_cons_self ..)
            · intro other hother
              obtain ⟨hother, hreother⟩ := hall other hother
              exact ⟨fun hmem => hother (List.mem_cons_of_mem _ hmem), hreother⟩

-- ============================================================== parameters

/-- The parameters the silent checks leave. -/
theorem exists_params {pars : List Parameter}
    (hchecked : checkParameters os consts 0 pars = [])
    (hnames : check12 [] 0 (pars.map Parameter.name) = [])
    (htame : ∀ par ∈ pars, par.name.getLast? ≠ some 10) :
    ∃ params, List.Forall₂ (ParamSays consts) pars params
      ∧ (params.map Param.name).Nodup := by
  obtain ⟨hnodup, hall⟩ := of_check12 hnames
  have hone : ∀ par ∈ pars, ∃ p, ParamSays consts par p := by
    intro par hpar
    obtain ⟨label, hlabel⟩ := of_checkParameters hchecked par hpar
    apply of_checkParameter hlabel
    apply isIdentifier_of_reIdentifier (hall _ (List.mem_map_of_mem hpar)).2
    exact byteText_getLast (b := 10) (htame par hpar)
  obtain ⟨params, hmeans⟩ := exists_forall₂ hone
  refine ⟨params, hmeans, ?_⟩
  have hmap : params.map Param.name = (pars.map Parameter.name).map byteText := by
    rw [List.map_map]
    exact (map_eq_map_of_forall₂ hmeans fun par p hp => hp.2.2).symm
  rw [hmap]
  exact hnodup.map fun _ _ => byteText_inj

/-- The lists of those parameters. -/
theorem Listed.lists {f5 f6 f7 f8 : Field} {pars : List Parameter}
    {params : List Param} (h : Listed f5 f6 f7 f8 pars)
    (hmeans : List.Forall₂ (ParamSays consts) pars params) :
    f5 = [.num params.length] ∧ params.length ≤ 64
      ∧ ListsSay consts f6 f7 f8 params := by
  cases h with
  | empty hcount htypes hdims hnames =>
      cases hmeans
      rw [hcount, htypes, hdims]
      exact ⟨rfl, Nat.zero_le _, .empty hnames⟩
  | entries hcount hne hle htypes hdims hnames htype hdim hname =>
      rw [← hmeans.length_eq]
      refine ⟨hcount, hle, .entries ?_ htypes hdims hnames ?_ ?_ ?_⟩
      · rintro rfl
        cases hmeans
        exact hne rfl
      · rw [htype, List.map_map]
        exact map_eq_map_of_forall₂ hmeans fun par p hp => hp.1
      · rw [hdim, List.map_map]
        exact map_eq_map_of_forall₂ hmeans fun par p hp => hp.2.1
      · have hmap := congrArg (List.map (Option.map byteText)) hname
        rw [List.map_map, List.map_map] at hmap
        refine hmap.trans ?_
        exact map_eq_map_of_forall₂ hmeans fun par p hp => congrArg some hp.2.2

/-- What field 8 gives to check 12. -/
theorem Listed.mem_parNames {f5 f6 f7 f8 : Field} {pars : List Parameter}
    (h : Listed f5 f6 f7 f8 pars) {row : Row} (hrow : row.field 8 = f8) :
    ∀ par ∈ pars, par.name ∈ row.parNames := by
  cases h with
  | empty => exact List.forall_mem_nil _
  | entries hcount hne hle htypes hdims hnames htype hdim hname =>
      intro par hpar
      have hmem : some par.name ∈ _ := hname ▸ List.mem_map_of_mem hpar
      obtain ⟨item, hitem, hitemName⟩ := List.mem_map.mp hmem
      rw [Row.parNames, hrow, hnames]
      exact List.mem_filterMap.mpr ⟨item, hitem, hitemName⟩

-- ==================================================================== rows

theorem of_checkFields {nameRaw : Option Bytes} {f1 f2 f3 f4 f5 f6 f7 f8 : Field}
    (h : checkFields os consts seen nameRaw f1 f2 f3 f4 f5 f6 f7 f8 = []) :
    check4 os nameRaw f1 = [] ∧ check5 seen nameRaw = []
      ∧ ∃ pars, Listed f5 f6 f7 f8 pars ∧ checkReturn consts f4 = []
        ∧ checkParameters os consts 0 pars = []
        ∧ check12 [] 0 (pars.map Parameter.name) = [] := by
  simp only [checkFields, List.append_eq_nil_iff] at h
  obtain ⟨⟨⟨⟨h4, h5⟩, -⟩, -⟩, hrest⟩ := h
  refine ⟨h4, h5, ?_⟩
  split at hrest
  next findings hfindings => exact absurd hrest (check7_error_ne_nil hfindings)
  next pars hpars =>
    simp only [List.append_eq_nil_iff] at hrest
    exact ⟨pars, of_check7 hpars, hrest.1.1, hrest.1.2, hrest.2⟩

theorem eq_of_nameRaw {row : Row} {raw : Bytes} {f : Field} {fs : List Field}
    (h : row.nameRaw = some raw) (hrow : row.fields = f :: fs) : f = [.str raw] := by
  unfold Row.nameRaw at h
  rw [hrow] at h
  split at h
  next heq =>
    cases heq
    cases h
    rfl
  next => cases h

/-- A tame row the checks are silent about says a function, under a name
that was not seen. -/
theorem exists_function_of_checkRow {row : Row}
    (h : checkRow os consts seen row = []) (htame : row.Tame) :
    ∃ f raw, RowSays consts row.fields f ∧ byteText raw = f.name ∧ raw ∉ seen
      ∧ seenAfter seen row = raw :: seen := by
  obtain ⟨index, line, fields⟩ := row
  unfold checkRow at h
  dsimp only at h
  split at h
  next f0 f1 f2 f3 f4 f5 f6 f7 f8 =>
    rw [List.map_eq_nil_iff] at h
    obtain ⟨h4, h5, pars, hlisted, hreturn, hparams, hnames⟩ := of_checkFields h
    obtain ⟨raw, hraw, hopening, hshort, hnew⟩ := of_check5 h5
    have hident := isIdentifier_of_opening hopening (htame.name raw hraw)
    rw [hraw] at h4
    have hf1 := of_check4 h4 htame.call hident
    obtain ⟨cls, hcls, hvalue, hbase⟩ := of_checkReturn hreturn
    obtain ⟨params, hmeans, hdistinct⟩ := exists_params hparams hnames
      fun par hpar => htame.params _ (hlisted.mem_parNames rfl par hpar)
    obtain ⟨hf5, hcount, hlists⟩ := hlisted.lists hmeans
    have hf0 := eq_of_nameRaw hraw rfl
    let f : Function :=
      { name := byteText raw, result := cls.base, params := params,
        opening := hopening, short := by rwa [byteText, List.length_map],
        returns := hbase, count := hcount, distinct := hdistinct }
    refine ⟨f, raw, ?_, rfl, hnew, ?_⟩
    · rw [hf0, hf1, hf5]
      exact .row (f := f) rfl rfl hcls rfl hvalue hlists
    · show Option.toList _ ++ seen = raw :: seen
      rw [hraw]
      rfl
  next => cases h

/-- Silent rows say functions with names of their own. -/
theorem exists_functions_of_checkRows {rows : List Row}
    (h : checkRows os consts seen rows = []) (htame : ∀ row ∈ rows, row.Tame) :
    ∃ fs, List.Forall₂ (RowSays consts) (rows.map Row.fields) fs
      ∧ (fs.map Function.name).Nodup ∧ ∀ f ∈ fs, f.name ∉ seen.map byteText := by
  induction rows generalizing seen with
  | nil => exact ⟨[], .nil, List.nodup_nil, List.forall_mem_nil _⟩
  | cons row rows ih =>
      rw [checkRows, List.append_eq_nil_iff] at h
      rw [List.forall_mem_cons] at htame
      obtain ⟨f, raw, hmeans, hname, hnew, hafter⟩ :=
        exists_function_of_checkRow h.1 htame.1
      have hrest := h.2
      rw [hafter] at hrest
      obtain ⟨fs, hall, hnodup, hfresh⟩ := ih hrest htame.2
      rw [List.map_cons] at hfresh
      refine ⟨f :: fs, .cons hmeans hall, ?_, ?_⟩
      · rw [List.map_cons, List.nodup_cons]
        refine ⟨fun hmem => ?_, hnodup⟩
        obtain ⟨g, hg, hgf⟩ := List.mem_map.mp hmem
        apply hfresh g hg
        rw [hgf, hname]
        exact List.mem_cons_self ..
      · rw [List.forall_mem_cons]
        refine ⟨fun hmem => ?_, ?_⟩
        · obtain ⟨other, hother, heq⟩ := List.mem_map.mp hmem
          rw [← hname] at heq
          exact hnew (byteText_inj heq ▸ hother)
        · exact fun g hg hmem => hfresh g hg (List.mem_cons_of_mem _ hmem)

-- ================================================================ converse

/-- The names a row lists are those of its function's parameters. -/
theorem ListsSay.isIdentifier {types dims names : Field} {params : List Param}
    (h : ListsSay consts types dims names params) {row : Row}
    (hrow : row.field 8 = names) {pn : Bytes} (hpn : pn ∈ row.parNames) :
    pn = [] ∨ isIdentifier (byteText pn) = true := by
  unfold Row.parNames at hpn
  cases h with
  | empty hnames =>
      left
      rw [hrow, hnames] at hpn
      exact List.mem_singleton.mp hpn
  | entries hne htypes hdims hnames htype hdim hname =>
      right
      rw [hrow, hnames] at hpn
      obtain ⟨item, hitem, hitemName⟩ := List.mem_filterMap.mp hpn
      have hmem : (itemName item).map byteText ∈ _ :=
        hname ▸ List.mem_map_of_mem (f := fun item => (itemName item).map byteText) hitem
      obtain ⟨p, -, hp⟩ := List.mem_map.mp hmem
      rw [hitemName] at hp
      rw [← Option.some.inj hp]
      exact p.isIdent

/-- The row of a function takes no check in. -/
theorem RowSays.tame {row : Row} {f : Function} (h : RowSays consts row.fields f) :
    row.Tame := by
  obtain ⟨index, line, fields⟩ := row
  cases h with
  | @row _ _ ident _ _ _ _ _ _ _ hraw hident _ _ _ hlists =>
      have hchars := isIdentChar_of_mem ident.isIdent
      refine ⟨?_, ?_, ?_⟩
      · rintro _ ⟨⟩
        rw [hraw, ← hident]
        exact hchars
      · show Printable (getFieldSig (farCall (.id ident)))
        rw [getFieldSig_farCall]
        exact printable_append printable_want1 (printable_ident hchars)
      · intro pn hpn hlast
        rcases hlists.isIdentifier rfl hpn with rfl | hpnIdent
        · cases hlast
        · have hmem : Char.ofNat 10 ∈ byteText pn :=
            List.mem_map_of_mem (List.mem_of_getLast? hlast)
          exact absurd (isIdentChar_of_mem hpnIdent _ hmem) (by decide)

end RestifyCapl.Export
