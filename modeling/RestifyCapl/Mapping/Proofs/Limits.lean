/-
The limit scanner and the flattener agree. A scan that accepts a text's
tree has counted the tree's leaves and the bytes of their keys
(`run_tree`, by induction over the tree, with the ledger of its events);
the document has the leaves the repeated keys leave of them.
-/
import RestifyCapl.Mapping.Proofs.Ledger
import RestifyCapl.Mapping.Proofs.NoWrap
import Mathlib.Data.List.Perm.Subperm

namespace RestifyCapl

open Lib
open Lib.Rose

variable {F : Type}

-- ============================================================ ledger runs

/-- What the events of `v` do to a ledger. -/
structure Scanned (L L' : Ledger) (v : JsonValue F) : Prop where
  entries : L'.entries = L.entries + leafCount v
  bytes : L'.bytes = L.bytes + (leafCount v * L.keyBytes + keyText v)
  opened : L'.opened = false
  stack : L'.stack = Ledger.bump L.stack
  nesting : NestingAtMost (kMaxJsonDepth - L.stack.length) v
  plain : PlainKeys v

/-- What the events between the brackets of a container do, under a key
of `k` bytes. -/
structure ScannedChildren (L L' : Ledger) (k : Nat)
    (children : List (Bytes × JsonValue F)) : Prop where
  entries : L'.entries
    = L.entries + (children.map fun c => leafCount c.2).sum
  bytes : L'.bytes = L.bytes + (children.map (childText k)).sum
  opened : L'.opened = (L.opened && children.isEmpty)
  nesting : ∀ c ∈ children, NestingAtMost (kMaxJsonDepth - L.stack.length) c.2
  plain : ∀ c ∈ children, 0 ∉ c.1 ∧ PlainKeys c.2

theorem bump_length (stack : List KeyFrame) :
    (Ledger.bump stack).length = stack.length := by
  cases stack <;> rfl

theorem ScannedChildren.nil (L : Ledger) (k : Nat) :
    ScannedChildren L L k ([] : List (Bytes × JsonValue F)) where
  entries := rfl
  bytes := rfl
  opened := by simp
  nesting _ hc := absurd hc List.not_mem_nil
  plain _ hc := absurd hc List.not_mem_nil

/-- One child, then the others. -/
theorem ScannedChildren.cons {L L₁ L₂ : Ledger} {k : Nat}
    {c : Bytes × JsonValue F} {children : List (Bytes × JsonValue F)}
    (hentries : L₁.entries = L.entries + leafCount c.2)
    (hbytes : L₁.bytes = L.bytes + childText k c)
    (hopened : L₁.opened = false)
    (hlength : L₁.stack.length = L.stack.length)
    (hnesting : NestingAtMost (kMaxJsonDepth - L.stack.length) c.2)
    (hplain : 0 ∉ c.1 ∧ PlainKeys c.2)
    (h : ScannedChildren L₁ L₂ k children) :
    ScannedChildren L L₂ k (c :: children) where
  entries := by
    rw [h.entries, hentries, List.map_cons, List.sum_cons]
    omega
  bytes := by
    rw [h.bytes, hbytes, List.map_cons, List.sum_cons]
    omega
  opened := by
    rw [h.opened, hopened]
    simp
  nesting c' hc' := by
    rcases List.mem_cons.mp hc' with rfl | hc'
    · exact hnesting
    · rw [← hlength]
      exact h.nesting c' hc'
  plain c' hc' := by
    rcases List.mem_cons.mp hc' with rfl | hc'
    · exact hplain
    · exact h.plain c' hc'

theorem nul_not_mem_decimal (n : Nat) : 0 ∉ decimal n := by
  intro h
  have := decimal_digits n 0 h
  exact absurd this (by decide)

/-- The elements of an array, from index `j` on. -/
theorem run_elements {elements : List (JsonValue F)}
    (ih : ∀ e ∈ elements, ∀ L L' : Ledger,
      L.run e.saxEvents = some L' → Scanned L L' e)
    {L L' : Ledger} {j k : Nat} {stack : List KeyFrame}
    (hstack : L.stack = ⟨true, j, k⟩ :: stack)
    (h : L.run (elements.flatMap JsonValue.saxEvents) = some L') :
    ScannedChildren L L' k
        (elements.mapIdx fun i e => (decimal (j + i), e))
      ∧ L'.stack = ⟨true, j + elements.length, k⟩ :: stack := by
  induction elements generalizing L j with
  | nil =>
      cases h
      exact ⟨.nil _ k, hstack⟩
  | cons e elements ihes =>
      rw [List.flatMap_cons, Ledger.run_append] at h
      obtain ⟨L₁, he, h⟩ := Option.bind_eq_some_iff.mp h
      have hscan := ih e (List.mem_cons_self ..) L L₁ he
      have hkey : L.keyBytes = k + 1 + (decimal j).length := by
        unfold Ledger.keyBytes
        rw [hstack]
        rfl
      have hstack₁ : L₁.stack = ⟨true, j + 1, k⟩ :: stack := by
        rw [hscan.stack, hstack]
        rfl
      obtain ⟨hrest, hfinal⟩ := ihes
        (fun e' he' => ih e' (List.mem_cons_of_mem _ he')) hstack₁ h
      have hindices : (e :: elements).mapIdx
            (fun i e => (decimal (j + i), e))
          = (decimal j, e) :: elements.mapIdx
            (fun i e => (decimal (j + 1 + i), e)) := by
        rw [List.mapIdx_cons]
        congr 2
        funext i e
        congr 2
        omega
      rw [hindices]
      refine ⟨.cons hscan.entries ?_ hscan.opened ?_ hscan.nesting
        ⟨nul_not_mem_decimal j, hscan.plain⟩ hrest, ?_⟩
      · rw [hscan.bytes, hkey, childText, escapeToken_decimal]
      · rw [hscan.stack, bump_length]
      · rw [hfinal, List.length_cons]
        congr 2
        omega

/-- The members of an object. -/
theorem run_members {members : List (Bytes × JsonValue F)}
    (ih : ∀ m ∈ members, ∀ L L' : Ledger,
      L.run m.2.saxEvents = some L' → Scanned L L' m.2)
    {L L' : Ledger} {j k : Nat} {stack : List KeyFrame}
    (hstack : L.stack = ⟨false, j, k⟩ :: stack)
    (h : L.run (members.flatMap fun m => .key m.1 :: m.2.saxEvents)
      = some L') :
    ScannedChildren L L' k members
      ∧ L'.stack = ⟨false, j, k⟩ :: stack := by
  induction members generalizing L with
  | nil =>
      cases h
      exact ⟨.nil _ k, hstack⟩
  | cons m members ihms =>
      rw [List.flatMap_cons, List.cons_append] at h
      obtain ⟨L₀, hkey, h⟩ := Option.bind_eq_some_iff.mp h
      rw [Ledger.run_append] at h
      obtain ⟨L₁, hm, htail⟩ := Option.bind_eq_some_iff.mp h
      have hscan := ih m (List.mem_cons_self ..) L₀ L₁ hm
      obtain ⟨hnul, rfl⟩ : 0 ∉ m.1 ∧ L₀ = { L with
          pending := (escapeToken m.1).length
          opened := false } := by
        have hkey : L.key m.1 = some L₀ := hkey
        unfold Ledger.key at hkey
        split at hkey
        · cases hkey
        · injection hkey with hkey
          exact ⟨‹_›, hkey.symm⟩
      have hbytes : Ledger.keyBytes { L with
            pending := (escapeToken m.1).length
            opened := false }
          = k + 1 + (escapeToken m.1).length := by
        unfold Ledger.keyBytes
        rw [hstack]
        rfl
      have hstack₁ : L₁.stack = ⟨false, j, k⟩ :: stack := by
        rw [hscan.stack, hstack]
        rfl
      obtain ⟨hrest, hfinal⟩ := ihms
        (fun m' hm' => ih m' (List.mem_cons_of_mem _ hm')) hstack₁ htail
      refine ⟨.cons hscan.entries ?_ hscan.opened ?_ hscan.nesting
        ⟨hnul, hscan.plain⟩ hrest, hfinal⟩
      · rw [hscan.bytes, hbytes]
        rfl
      · rw [hscan.stack, bump_length]

/-- A container, from its opening bracket to its closing one. -/
theorem scanned_container {v : JsonValue F} {isArray : Bool}
    {L L₁ L₂ L' : Ledger} {j : Nat}
    (hopen : L.openContainer isArray = some L₁)
    (hchildren : ScannedChildren L₁ L₂ L.keyBytes v.labelled)
    (hstack : L₂.stack = ⟨isArray, j, L.keyBytes⟩ :: Ledger.bump L.stack)
    (hclose : L₂.closeContainer = some L') : Scanned L L' v := by
  unfold Ledger.openContainer at hopen
  split at hopen
  next hlt =>
    injection hopen with hopen
    subst hopen
    unfold Ledger.closeContainer at hclose
    rw [hstack] at hclose
    dsimp only at hclose
    have hopened : L₂.opened = v.labelled.isEmpty := hchildren.opened
    have hentries := hchildren.entries
    have hbytes := hchildren.bytes
    have hdepth : kMaxJsonDepth - L.stack.length
        = kMaxJsonDepth - (L.stack.length + 1) + 1 := by omega
    have hnesting : NestingAtMost (kMaxJsonDepth - L.stack.length) v := by
      rw [hdepth]
      apply nestingAtMost_node
      intro c hc
      have := hchildren.nesting c hc
      rwa [List.length_cons, bump_length] at this
    have hplain : PlainKeys v := plainKeys_node hchildren.plain
    by_cases hempty : v.labelled = []
    · rw [hempty] at hopened hentries hbytes
      rw [if_pos (show L₂.opened = true from hopened)] at hclose
      cases hclose
      refine ⟨?_, ?_, rfl, rfl, hnesting, hplain⟩
      · dsimp only
        rw [hentries, leafCount_leaf hempty]
        rfl
      · dsimp only
        rw [hbytes, leafCount_leaf hempty, keyText_leaf hempty, Nat.one_mul]
        rfl
    · have hfalse : ¬ L₂.opened = true := by
        rw [hopened, List.isEmpty_iff]
        exact hempty
      rw [if_neg hfalse] at hclose
      cases hclose
      refine ⟨?_, ?_, rfl, rfl, hnesting, hplain⟩
      · dsimp only
        rw [hentries, leafCount_node hempty]
      · dsimp only
        rw [hbytes, childText_node hempty]
  next => cases hopen

theorem scanned_scalar {v : JsonValue F} {L : Ledger} (h : v.labelled = [])
    (hscalar : (v.isObject || v.isArray) = false) : Scanned L L.leaf v where
  entries := by
    rw [leafCount_leaf h]
    rfl
  bytes := by
    rw [leafCount_leaf h, keyText_leaf h, Nat.one_mul]
    rfl
  opened := rfl
  stack := rfl
  nesting pos labels u hr hu := by
    cases hr with
    | here =>
        rw [hscalar] at hu
        cases hu
    | child hk => simp [h] at hk
  plain := plainKeys_node fun c hc => by
    rw [h] at hc
    exact absurd hc List.not_mem_nil

/-- A run over the events of a tree counts its leaves and their keys. -/
theorem run_tree (v : JsonValue F) :
    ∀ L L' : Ledger, L.run v.saxEvents = some L' → Scanned L L' v := by
  induction v using Rose.induct with
  | h v ih =>
      intro L L' h
      cases v with
      | array elements =>
          rw [JsonValue.saxEvents, JsonValue.eventsOfElements_eq] at h
          obtain ⟨L₁, hopen, h⟩ := Option.bind_eq_some_iff.mp h
          rw [Ledger.run_append] at h
          obtain ⟨L₂, hrun, h⟩ := Option.bind_eq_some_iff.mp h
          obtain ⟨L₃, hclose, h⟩ := Option.bind_eq_some_iff.mp h
          cases h
          have hstack₁ : L₁.stack
              = ⟨true, 0, L.keyBytes⟩ :: Ledger.bump L.stack := by
            have hopen : L.openContainer true = some L₁ := hopen
            unfold Ledger.openContainer at hopen
            split at hopen
            · cases hopen
              rfl
            · cases hopen
          have hih : ∀ e ∈ elements, ∀ L L' : Ledger,
              L.run e.saxEvents = some L' → Scanned L L' e := by
            intro e he
            rw [← JsonValue.indexed_values elements] at he
            obtain ⟨c, hc, rfl⟩ := List.mem_map.mp he
            exact ih c hc
          obtain ⟨hchildren, hstack₂⟩ := run_elements hih hstack₁ hrun
          have hlabels : elements.mapIdx (fun i e => (decimal (0 + i), e))
              = (JsonValue.array elements).labelled := by
            show _ = elements.mapIdx fun i e => (decimal i, e)
            congr 1
            funext i e
            rw [Nat.zero_add]
          rw [hlabels] at hchildren
          exact scanned_container hopen hchildren hstack₂ hclose
      | object members =>
          rw [JsonValue.saxEvents, JsonValue.eventsOfMembers_eq] at h
          obtain ⟨L₁, hopen, h⟩ := Option.bind_eq_some_iff.mp h
          rw [Ledger.run_append] at h
          obtain ⟨L₂, hrun, h⟩ := Option.bind_eq_some_iff.mp h
          obtain ⟨L₃, hclose, h⟩ := Option.bind_eq_some_iff.mp h
          cases h
          have hstack₁ : L₁.stack
              = ⟨false, 0, L.keyBytes⟩ :: Ledger.bump L.stack := by
            have hopen : L.openContainer false = some L₁ := hopen
            unfold Ledger.openContainer at hopen
            split at hopen
            · cases hopen
              rfl
            · cases hopen
          obtain ⟨hchildren, hstack₂⟩ := run_members ih hstack₁ hrun
          exact scanned_container hopen hchildren hstack₂ hclose
      | _ =>
          cases h
          exact scanned_scalar rfl rfl

-- ============================================================ the document

theorem labels_nodup_collapse (v : JsonValue F) :
    ((leaves v.collapse).map Prod.fst).Nodup :=
  leaves_nodup v.collapse_distinct

/-- The document has no leaf the text's tree does not have. -/
theorem labels_subset_collapse (v : JsonValue F) :
    (leaves v.collapse).map Prod.fst ⊆ (leaves v).map Prod.fst := by
  intro labels h
  obtain ⟨⟨labels', u⟩, hmem, rfl⟩ := List.mem_map.mp h
  obtain ⟨hleaf, pos, hr⟩ := mem_leaves.mp hmem
  obtain ⟨pos', u', hr', rfl⟩ := JsonValue.reaches_collapse hr
  apply List.mem_map.mpr
  refine ⟨(labels', u'), mem_leaves.mpr ⟨?_, pos', hr'⟩, rfl⟩
  exact JsonValue.labelled_collapse_nil hleaf

theorem labels_subperm_collapse (v : JsonValue F) :
    List.Subperm ((leaves v.collapse).map Prod.fst)
      ((leaves v).map Prod.fst) :=
  List.subperm_of_subset (labels_nodup_collapse v) (labels_subset_collapse v)

theorem leafCount_collapse (v : JsonValue F) :
    leafCount v.collapse ≤ leafCount v := by
  have := (labels_subperm_collapse v).length_le
  rwa [List.length_map, List.length_map] at this

theorem keyText_eq (v : JsonValue F) :
    keyText v = (((leaves v).map Prod.fst).map fun labels =>
      (pointerText labels).length).sum := by
  rw [List.map_map]
  rfl

theorem keyText_collapse (v : JsonValue F) :
    keyText v.collapse ≤ keyText v := by
  obtain ⟨l, hperm, hsub⟩ := labels_subperm_collapse v
  rw [keyText_eq, keyText_eq]
  calc _ = (l.map fun labels => (pointerText labels).length).sum :=
        (hperm.map _).sum_eq.symm
    _ ≤ _ := (hsub.map _).sum_le_sum fun _ _ => Nat.zero_le _

theorem nestingAtMost_collapse {v : JsonValue F} {n : Nat}
    (h : NestingAtMost n v) : NestingAtMost n v.collapse := by
  intro pos labels u hr hu
  obtain ⟨pos', u', hr', rfl⟩ := JsonValue.reaches_collapse hr
  apply h pos' labels u' hr'
  cases u' <;> exact hu

/-- The bytes of the keys of a list of entries. -/
def entryKeyBytes (entries : List FlatEntry) : Nat :=
  (entries.map fun e => e.key.length).sum

theorem leafEntries_length [JsonFloat F] (v : JsonValue F) :
    (leafEntries v).length = leafCount v :=
  List.length_map ..

theorem entryKeyBytes_leafEntries [JsonFloat F] (v : JsonValue F) :
    entryKeyBytes (leafEntries v) = keyText v := by
  unfold entryKeyBytes leafEntries keyText
  rw [List.map_map]
  congr 1
  apply List.map_congr_left
  intro e _
  show (entryAt (pointerText e.1) e.2).key.length = _
  rw [entryAt_key]

-- =============================================================== agreement

open LimitCheckingSax
open Lib.SizeArith

/-- What an accepting scan of a text's tree says of the document. -/
structure ScanAgrees [JsonFloat F] (raw : JsonValue F)
    (sax : LimitCheckingSax) (entries : List FlatEntry) : Prop where
  fewEntries : entries.length ≤ kMaxFlatEntries
  shortKeys : entryKeyBytes entries ≤ kMaxFlatKeyBytes
  nesting : NestingAtMost kMaxJsonDepth raw
  documentNesting : NestingAtMost kMaxJsonDepth raw.collapse
  entryCount : entries.length ≤ sax.entryCount
  keyTotal : entryKeyBytes entries ≤ sax.keyTotal
  /-- Without a repeated key the scanner's totals are exact. -/
  exact : Rose.Distinct raw → sax.entryCount = entries.length
    ∧ sax.keyTotal = entryKeyBytes entries

/-- The totals of an accepting scan are those of the tree. -/
theorem feed_tree {w : Nat} {raw : JsonValue F} {sax : LimitCheckingSax}
    (h : init.feed (checked w) raw.saxEvents = some (true, sax)) :
    sax.Within ∧ sax.entryCount = leafCount raw
      ∧ sax.keyTotal = keyText raw ∧ NestingAtMost kMaxJsonDepth raw
      ∧ PlainKeys raw := by
  obtain ⟨hrun, hwithin⟩ := feed_view within_init h
  have hscan := run_tree raw _ _ hrun
  have hentries : sax.entryCount = 0 + leafCount raw := hscan.entries
  have hbytes : sax.keyTotal = 0 + (leafCount raw * 0 + keyText raw) :=
    hscan.bytes
  exact ⟨hwithin, by omega, by omega, hscan.nesting, hscan.plain⟩

theorem scanAgrees [JsonFloat F] {w : Nat} {raw : JsonValue F}
    {sax : LimitCheckingSax}
    (h : init.feed (checked w) raw.saxEvents = some (true, sax)) :
    ScanAgrees raw sax (leafEntries raw.collapse) := by
  obtain ⟨hwithin, hentries, hbytes, hnesting, -⟩ := feed_tree h
  have hcount := leafCount_collapse raw
  have htext := keyText_collapse raw
  have hmaxEntries := hwithin.entries
  have hmaxKeys := hwithin.keys
  constructor
  case fewEntries =>
    rw [leafEntries_length]
    omega
  case shortKeys =>
    rw [entryKeyBytes_leafEntries]
    omega
  case nesting => exact hnesting
  case documentNesting => exact nestingAtMost_collapse hnesting
  case entryCount =>
    rw [leafEntries_length]
    omega
  case keyTotal =>
    rw [entryKeyBytes_leafEntries]
    omega
  case exact =>
    intro hd
    rw [JsonValue.collapse_self hd, leafEntries_length,
      entryKeyBytes_leafEntries]
    exact ⟨hentries, hbytes⟩

/-- Nothing wraps in a scan of what a text within the limit spells, nor
of the beginning of it. -/
theorem feed_prefix {w : Nat} (hw : 32 ≤ w) {raw : JsonValue F}
    (hsize : eventBytes raw.saxEvents ≤ maxConvertedBytes)
    {events : List (SaxEvent F)} (hpre : events <+: raw.saxEvents) :
    ∃ r, init.feed (checked w) events = some r
      ∧ init.feed (wrapping w) events = some r := by
  obtain ⟨rest, hrest⟩ := hpre
  have hnested : Nested init.depth (events ++ rest) := by
    rw [hrest, ← List.append_nil raw.saxEvents]
    exact nested_saxEvents raw _ trivial
  have hbytes : 0 + eventBytes events ≤ maxConvertedBytes := by
    rw [← hrest] at hsize
    unfold eventBytes at hsize ⊢
    rw [List.map_append, List.sum_append] at hsize
    omega
  obtain ⟨r, hr⟩ := feed_defined hw counted_init hnested.left
    (fits_converted hw hbytes)
  exact ⟨r, hr, feed_below w init events r hr⟩

/-- The limit scanner and the flattener agree. Whatever the scan accepts
without wrapping has a document within the limits, and a scan of at most
2 MiB of text, with 32- or 64-bit counters, does not wrap. -/
theorem scan_agrees_with_flatten [JsonFloat F] (raw : JsonValue F) {w : Nat}
    (hw : w = 32 ∨ w = 64) :
    (∀ sax, init.feed (checked w) raw.saxEvents = some (true, sax) →
      ∃ entries, flattenDocument raw.collapse = .ok entries
        ∧ ScanAgrees raw sax entries)
    ∧ (eventBytes raw.saxEvents ≤ maxConvertedBytes →
      (∀ events, events <+: raw.saxEvents →
        ∃ r, init.feed (checked w) events = some r
          ∧ init.feed (wrapping w) events = some r)
      ∧ ∀ sax, init.feed (wrapping w) raw.saxEvents = some (true, sax) →
        ∃ entries, flattenDocument raw.collapse = .ok entries
          ∧ ScanAgrees raw sax entries) := by
  have hw : 32 ≤ w := by omega
  have haccept : ∀ sax,
      init.feed (checked w) raw.saxEvents = some (true, sax) →
      ∃ entries, flattenDocument raw.collapse = .ok entries
        ∧ ScanAgrees raw sax entries := by
    intro sax h
    exact ⟨leafEntries raw.collapse, flattenDocument_eq _, scanAgrees h⟩
  refine ⟨haccept, fun hsize => ⟨?_, ?_⟩⟩
  · intro events hpre
    exact feed_prefix hw hsize hpre
  · intro sax h
    obtain ⟨r, hchecked, hwrapping⟩ :=
      feed_prefix hw hsize (List.prefix_refl _)
    rw [h] at hwrapping
    apply haccept
    rw [hchecked, ← hwrapping]

/-- A key repeated: two entries are counted, one is listed. -/
def repeated : JsonValue Empty :=
  .object [([97], .boolean true), ([97], .null)]

theorem repeated_accepted :
    (init.feed (checked 32) repeated.saxEvents).isSome = true := by
  decide

theorem scan_agrees_with_flatten_repeated : ∃ entries,
    flattenDocument repeated.collapse = .ok entries
      ∧ ScanAgrees repeated
        ((init.feed (checked 32) repeated.saxEvents).get
          repeated_accepted).2 entries := by
  apply (scan_agrees_with_flatten repeated (Or.inl rfl)).1
  decide

end RestifyCapl
