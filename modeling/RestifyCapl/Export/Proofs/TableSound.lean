/-
The check of the export table is sound where it is not taken in. A text
it has nothing to say about holds a table, and the table is that of some
functions exactly where it is tame: every name is of identifier
characters, field 1 and the outer rows are in printable ASCII, and no
parameter name ends in a line feed.

Each part is a way to pass that is no function. Signatures are texts, so
a name with blanks can equal the signature of several tokens; they are
compared by the rules of a culture; and the `$` of check 12 matches
before a final line feed, which `parName_ends_in_newline` shows.
-/
import RestifyCapl.Export.Proofs.Rows

namespace RestifyCapl.Export

open Ci Lib

variable {os : Platform}

-- ============================================================== outer rows

theorem of_isVersionRow {fields : List Field} (h : isVersionRow os fields = true)
    (hprintable : ∀ f ∈ fields, Printable (getFieldSig f))
    (hbalance : balance fields.flatten = 0) : fields = versionRow := by
  rw [isVersionRow, Bool.and_eq_true, beq_iff_eq, List.all_eq_true] at h
  have hwant : ∀ want ∈ want0, Printable want := by decide
  have hsigs : List.Forall₂ (fun f want => getFieldSig f = want) fields want0 := by
    rw [List.forall₂_iff_zip]
    refine ⟨h.1, fun {f want} hmem => ?_⟩
    obtain ⟨hf, hw⟩ := List.of_mem_zip hmem
    exact os.eq_of_ceq _ _ (hprintable f hf) (hwant want hw) (h.2 _ hmem)
  unfold want0 at hsigs
  obtain _ | ⟨h0, _ | ⟨h1, _ | ⟨h2, _ | ⟨h3, _ | ⟨h4, hsigs⟩⟩⟩⟩⟩ := hsigs
  obtain _ | ⟨h5, _ | ⟨h6, _ | ⟨h7, _ | ⟨h8, _ | _⟩⟩⟩⟩ := hsigs
  have h0 := eq_of_plainSig (g := [identOf "CDLL_VERSION_NAME" (by decide)])
    (by decide) h0
  have h1 := eq_of_plainSig (g := farCall (identOf "CDLL_VERSION" (by decide)))
    (by decide) h1
  have h4 := eq_of_plainSig (g := [.num 0]) (by decide) h4
  have h5 := eq_of_plainSig (g := [.num 0]) (by decide) h5
  rw [h0, h1, eq_of_emptySig h2, eq_of_emptySig h3, h4, h5, eq_of_emptySig h6,
    eq_of_emptySig h7] at hbalance ⊢
  rcases eq_of_namesSig h8 with h8 | h8
  · rw [h8]
    rfl
  · rw [h8] at hbalance
    exact absurd hbalance (by decide)

theorem of_isSentinel {row : Row} (h : isSentinel os row = true)
    (hprintable : ∀ f ∈ row.fields, Printable (getFieldSig f)) :
    row.fields = sentinelRow := by
  unfold isSentinel at h
  split at h
  next f hfields =>
    rw [hfields] at hprintable ⊢
    have hsig := os.eq_of_ceq _ _ (hprintable f (List.mem_singleton_self f))
      (by decide) h
    rw [eq_of_plainSig (g := [.num 0]) (by decide) hsig]
    rfl
  next => cases h

-- =================================================================== table

/-- A silent table: its outer rows, and the rows between. -/
theorem of_checkTable {table : Table} (h : checkTable os table = []) :
    ∃ first between last, table.rows = first :: between ++ [last]
      ∧ isVersionRow os first.fields = true ∧ isSentinel os last = true
      ∧ checkRows os table.consts [] between = [] := by
  unfold checkTable at h
  split at h
  next => cases h
  next first rows hrows =>
    simp only [List.append_eq_nil_iff] at h
    obtain ⟨⟨⟨hversion, hsentinel⟩, -⟩, hcheck⟩ := h
    have hversion : isVersionRow os first.fields = true := by
      by_contra hne
      rw [if_neg hne] at hversion
      cases hversion
    have hsentinel : hasSentinel os (first :: rows) = true := by
      by_contra hne
      rw [if_neg hne] at hsentinel
      cases hsentinel
    rw [funcRows, if_pos hsentinel] at hcheck
    rw [hasSentinel, Bool.and_eq_true, decide_eq_true_eq, Option.any_eq_true] at hsentinel
    obtain ⟨hlen, last, hlast, hsentinel⟩ := hsentinel
    have hne : rows ≠ [] := by
      rintro rfl
      exact absurd hlen (by simp)
    rw [List.getLast?_cons_of_ne_nil hne] at hlast
    refine ⟨first, rows.dropLast, last, ?_, hversion, hsentinel, hcheck⟩
    rw [hrows, List.cons_append, List.dropLast_append_getLast? last hlast]

theorem Table.Tame.sound {table : Table} (htame : table.Tame)
    (hbalance : ∀ row ∈ table.rows, balance row.fields.flatten = 0)
    (h : checkTable os table = []) : table.Sound := by
  obtain ⟨first, between, last, hrows, hversion, hsentinel, hcheck⟩ := of_checkTable h
  have hfirst := htame.first first (by rw [hrows]; rfl)
  have hlast := htame.last last (by rw [hrows, List.getLast?_concat]; rfl)
  have hbetween : ∀ row ∈ between, row.Tame := by
    have := htame.between
    rwa [hrows, List.cons_append, List.tail_cons, List.dropLast_concat] at this
  obtain ⟨fs, hmeans, hunique, -⟩ := exists_functions_of_checkRows hcheck hbetween
  refine ⟨fs, ⟨_, ?_, hmeans⟩, hunique⟩
  rw [hrows, List.map_append, List.map_cons, List.map_singleton,
    of_isVersionRow hversion hfirst (hbalance first (by rw [hrows]; simp)),
    of_isSentinel hsentinel hlast]

theorem Table.Sound.tame {table : Table} (h : table.Sound) : table.Tame := by
  obtain ⟨fs, ⟨rows, hrows, hmeans⟩, -⟩ := h
  obtain ⟨first, rest, hsplit, hfirst, hrest⟩ := List.map_eq_cons_iff.mp hrows
  obtain ⟨between, others, rfl, hbetween, hothers⟩ := List.map_eq_append_iff.mp hrest
  obtain ⟨last, rfl, hlast⟩ := List.map_eq_singleton_iff.mp hothers
  rw [← List.cons_append] at hsplit
  refine ⟨?_, ?_, ?_⟩
  · rw [hsplit]
    rintro _ ⟨⟩
    rw [hfirst]
    decide
  · rw [hsplit, List.getLast?_concat]
    rintro _ ⟨⟩
    rw [hlast]
    decide
  · rw [hsplit, List.cons_append, List.tail_cons, List.dropLast_concat]
    intro row hrow
    rw [← hbetween] at hmeans
    obtain ⟨f, -, hf⟩ := exists_of_forall₂ hmeans (List.mem_map_of_mem hrow)
    exact hf.tame

-- ==================================================================== text

/-- Without a table the script has said why; with one, its rows were read. -/
theorem readTable_cases (text : Text) :
    (∃ failures, failures ≠ [] ∧ readTable text = (failures, none))
      ∨ ∃ failures table body, readTable text = (failures, some table)
        ∧ readRows 0 0 body = .ok table.rows := by
  unfold readTable
  split
  next => exact Or.inl ⟨_, List.cons_ne_nil _ _, rfl⟩
  next =>
    split
    next => exact Or.inl ⟨_, List.cons_ne_nil _ _, rfl⟩
    next =>
      dsimp only
      split
      next =>
        exact Or.inl ⟨_, List.append_ne_nil_of_right_ne_nil _
          (List.cons_ne_nil _ _), rfl⟩
      next =>
        split
        next =>
          exact Or.inl ⟨_, List.append_ne_nil_of_right_ne_nil _
            (List.cons_ne_nil _ _), rfl⟩
        next hrows => exact Or.inr ⟨_, _, _, rfl, hrows⟩

/-- A text without failures holds a table without failures. -/
theorem exists_table {text : Text} (h : invokeExportTableCheck os text = []) :
    ∃ table, readTable text = ([], some table) ∧ checkTable os table = []
      ∧ ∀ row ∈ table.rows, balance row.fields.flatten = 0 := by
  unfold invokeExportTableCheck at h
  rcases readTable_cases text with
    ⟨failures, hne, hread⟩ | ⟨failures, table, body, hread, hrows⟩
  · rw [hread] at h
    exact absurd h hne
  · rw [hread] at h
    obtain ⟨hfailures, hcheck⟩ := List.append_eq_nil_iff.mp h
    rw [hfailures] at hread
    exact ⟨table, hread, hcheck, readRows_balance hrows⟩

theorem table_sound_iff (os : Platform) (text : Text)
    (h : invokeExportTableCheck os text = []) :
    ∃ table, readTable text = ([], some table) ∧ (table.Sound ↔ table.Tame) := by
  obtain ⟨table, hread, hcheck, hbalance⟩ := exists_table h
  exact ⟨table, hread, Table.Sound.tame, fun htame => htame.sound hbalance hcheck⟩

-- ================================================================ examples

/-- No culture. -/
def ordinal : Platform where
  getString := byteText
  ceq s t := s == t
  eq_of_ceq _ _ _ _ h := eq_of_beq h

/-- A table of one function, with these `parNames`. -/
def oneFunction (names : Text) : Text :=
  "CAPL_DLL_INFO4 CAPL_DLL_INFO_LIST4[] = \x7b\n".toList
    ++ "\x7bCDLL_VERSION_NAME, (CAPL_FARCALL)CDLL_VERSION, \"\", \"\", 0, 0, ".toList
    ++ "\"\", \"\", \x7b\"\"\x7d\x7d,\n".toList
    ++ "\x7b\"restifyA\", (CAPL_FARCALL)restifyA, \"Json\", \"Text.\", 'L', 1, ".toList
    ++ "\"D\", \"\\000\", ".toList ++ names ++ "\x7d,\n\x7b0\x7d\x7d;\n".toList

theorem table_sound_iff_oneFunction :
    ∃ table, readTable (oneFunction "\x7b\"id\"\x7d".toList) = ([], some table)
      ∧ (table.Sound ↔ table.Tame) :=
  table_sound_iff ordinal _ (by decide +kernel)

/-- A parameter name with a final line feed. -/
def lineFeedNames : Text := "\x7b\"id\\n\"\x7d".toList

theorem parName_ends_in_newline :
    invokeExportTableCheck ordinal (oneFunction lineFeedNames) = []
      ∧ ∃ table, readTable (oneFunction lineFeedNames) = ([], some table)
        ∧ ¬ table.Sound := by
  have hrun : invokeExportTableCheck ordinal (oneFunction lineFeedNames) = []
      ∧ (readTable (oneFunction lineFeedNames)).2.map
        (fun table => table.rows.tail.dropLast.map Row.parNames)
          = some [[[105, 100, 10]]] := by
    decide +kernel
  obtain ⟨hsilent, hnames⟩ := hrun
  obtain ⟨table, hread, -, -⟩ := exists_table hsilent
  refine ⟨hsilent, table, hread, fun hsound => ?_⟩
  rw [hread, Option.map_some, Option.some.injEq] at hnames
  obtain ⟨row, hrow, hparNames⟩ : ∃ row ∈ table.rows.tail.dropLast,
      row.parNames = [[105, 100, 10]] :=
    List.mem_map.mp (hnames ▸ List.mem_singleton_self _)
  have htame := hsound.tame.between row hrow
  exact htame.params [105, 100, 10] (hparNames ▸ List.mem_singleton_self _) rfl

end RestifyCapl.Export
