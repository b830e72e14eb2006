/-
The document store is a finite map. `Represents` says which map a store
is: its documents are the occupied slots' results under their ids, which
are distinct and nonzero. Every call does to the map what `StoreSpec`
says and answers from it alone (`represents_step`), so every history of
a store is a history of the map (`Machine.Simulates`).
-/
import RestifyCapl.Mapping.JsonDocumentStore
import Mathlib.Data.Finmap

namespace RestifyCapl

open Lib

variable {F ρ : Type}

-- ================================================================= the map

/-- The held documents, by id. -/
abbrev Documents (F : Type) := Finmap fun _ : UInt32 => FlattenResult F

/-- The map, and the id the next search begins at, if there is one yet. -/
structure DocumentMap (F : Type) where
  documents : Documents F
  counter : Option UInt32

/-- How many documents are held. -/
def Documents.size (D : Documents F) : Nat := D.keys.card

theorem Documents.size_insert {D : Documents F} {id : UInt32}
    (h : id ∉ D) (r : FlattenResult F) :
    Documents.size (D.insert id r) = D.size + 1 := by
  have hkeys : (D.insert id r).keys = Insert.insert id D.keys := by
    ext id'
    rw [Finset.mem_insert, Finmap.mem_keys, Finmap.mem_keys,
      Finmap.mem_insert]
  unfold Documents.size
  rw [hkeys, Finset.card_insert_of_notMem (by rwa [Finmap.mem_keys])]

theorem Documents.size_erase {D : Documents F} {id : UInt32} (h : id ∈ D) :
    Documents.size (D.erase id) + 1 = D.size := by
  unfold Documents.size
  rw [Finmap.keys_erase]
  exact Finset.card_erase_add_one (Finmap.mem_keys.mpr h)

theorem not_mem_of_lookup {D : Documents F} {id id' : UInt32}
    {r : FlattenResult F} (h : D.lookup id = some r) (h' : id' ∉ D) :
    id ≠ id' := by
  intro heq
  subst heq
  exact h' (Finmap.mem_of_lookup_eq_some h)

namespace JsonDocumentStore

-- =================================================================== ids

/-- A document is held under `id`. -/
def Holds (s : JsonDocumentStore F) (id : UInt32) : Prop :=
  ∃ i, (s.slots i).occupied = true ∧ (s.slots i).id = id

theorem isIdLiveLocked_iff {s : JsonDocumentStore F} {id : UInt32} :
    s.isIdLiveLocked id = true ↔ s.Holds id := by
  unfold isIdLiveLocked Holds
  rw [Option.isSome_iff_exists]
  constructor
  · intro ⟨i, hi⟩
    have hslot := findFirst_some hi
    rw [Bool.and_eq_true, beq_iff_eq] at hslot
    exact ⟨i, hslot⟩
  · intro ⟨i, hocc, hid⟩
    exact findFirst_isSome (i := i) (by simp [hocc, hid])

-- ========================================================= representation

/-- The map a store is. -/
structure Represents (s : JsonDocumentStore F) (t : DocumentMap F) :
    Prop where
  nonzero : ∀ i, (s.slots i).occupied = true → (s.slots i).id ≠ 0
  distinct : ∀ i j, (s.slots i).occupied = true →
    (s.slots j).occupied = true → (s.slots i).id = (s.slots j).id → i = j
  lookup : ∀ id r, t.documents.lookup id = some r
    ↔ ∃ i, (s.slots i).occupied = true ∧ (s.slots i).id = id
      ∧ (s.slots i).result = r
  size : t.documents.size = Lib.count Slot.occupied s.slots
  counter : t.counter = if s.idSeeded then some s.nextId else none

variable {s s' : JsonDocumentStore F} {t : DocumentMap F} {id : UInt32}

/-- An id of the map is found, in the slot of its document. -/
theorem Represents.find_some (hs : Represents s t) {r : FlattenResult F}
    (h : t.documents.lookup id = some r) :
    ∃ i, s.findLiveSlotLocked id = some i ∧ (s.slots i).occupied = true
      ∧ (s.slots i).id = id ∧ (s.slots i).result = r := by
  obtain ⟨i, hocc, hid, hresult⟩ := (hs.lookup id r).mp h
  refine ⟨i, ?_, hocc, hid, hresult⟩
  unfold findLiveSlotLocked
  rw [if_neg (hid ▸ hs.nonzero i hocc)]
  apply findFirst_unique
  · simp [hocc, hid]
  · intro j hj
    rw [Bool.and_eq_true, beq_iff_eq] at hj
    exact hs.distinct j i hj.1 hocc (hj.2.trans hid.symm)

theorem Represents.find_none (hs : Represents s t)
    (h : t.documents.lookup id = none) : s.findLiveSlotLocked id = none := by
  unfold findLiveSlotLocked
  split
  · rfl
  · rw [findFirst_none]
    intro i
    rw [Bool.and_eq_false_iff]
    by_cases hocc : (s.slots i).occupied = true
    · right
      rw [beq_eq_false_iff_ne]
      intro hid
      have := (hs.lookup id (s.slots i).result).mpr ⟨i, hocc, hid, rfl⟩
      rw [h] at this
      cases this
    · left
      simpa using hocc

/-- Looking up the map is finding the slot. -/
theorem Represents.lookup_eq (hs : Represents s t) (id : UInt32) :
    t.documents.lookup id
      = (s.findLiveSlotLocked id).map fun i => (s.slots i).result := by
  rcases hlookup : t.documents.lookup id with _ | r
  · rw [hs.find_none hlookup]
    rfl
  · obtain ⟨i, hfind, -, -, hresult⟩ := hs.find_some hlookup
    rw [hfind, Option.map_some, hresult]

/-- The ids of the map are the live ones. -/
theorem Represents.mem_iff (hs : Represents s t) :
    id ∈ t.documents ↔ s.isIdLiveLocked id = true := by
  rw [Finmap.mem_iff, isIdLiveLocked_iff]
  constructor
  · intro hr
    obtain ⟨r, hr⟩ := hr
    obtain ⟨i, hocc, hid, -⟩ := (hs.lookup id r).mp hr
    exact ⟨i, hocc, hid⟩
  · intro hid
    obtain ⟨i, hocc, hid⟩ := hid
    exact ⟨_, (hs.lookup id _).mpr ⟨i, hocc, hid, rfl⟩⟩

/-- A slot is free unless eight documents are held. -/
theorem Represents.full_iff (hs : Represents s t) :
    s.findFreeSlotLocked = none
      ↔ t.documents.size = kJsonDocumentSlotCount := by
  rw [hs.size, count_eq_size]
  unfold findFreeSlotLocked
  rw [findFirst_none]
  simp

-- =============================================================== the mint

/-- Eight slots cannot hold a lap of ids, so minting ends. -/
theorem mintIdLocked_total (s : JsonDocumentStore F) (ticks : UInt64) :
    ∃ r, s.mintIdLocked ticks = some r := by
  unfold mintIdLocked
  generalize (if s.idSeeded then s.nextId else ticks.toUInt32) = next
  have hids : ∀ v, s.isIdLiveLocked v = true →
      v ∈ List.ofFn fun i => (s.slots i).id := by
    intro v hv
    obtain ⟨i, -, hid⟩ := isIdLiveLocked_iff.mp hv
    exact List.mem_ofFn.mpr ⟨i, hid⟩
  have hsome : (mint s.isIdLiveLocked (2 ^ 32) next).isSome = true :=
    mint_isSome hids (by rw [List.length_ofFn]; decide) (Nat.le_refl _) next
  obtain ⟨r, hr⟩ := Option.isSome_iff_exists.mp hsome
  dsimp only
  rw [hr]
  exact ⟨_, rfl⟩

theorem mintIdLocked_some {ticks : UInt64}
    (h : s.mintIdLocked ticks = some (id, s')) :
    ∃ next, mint s.isIdLiveLocked (2 ^ 32)
        (if s.idSeeded then s.nextId else ticks.toUInt32) = some (id, next)
      ∧ s' = { s with idSeeded := true, nextId := next } := by
  unfold mintIdLocked at h
  dsimp only at h
  split at h
  · cases h
  · cases h
    exact ⟨_, ‹_›, rfl⟩

/-- Everything `Insert` can do: refuse, or put the result into a free
slot under a fresh id. -/
theorem insert_cases {result : FlattenResult F} {ticks : UInt64}
    {r : InsertResult F} (h : s.insert result ticks = some (r, s')) :
    (s.findFreeSlotLocked = none ∧ r = ⟨.noFreeDocumentSlot, none, result⟩
      ∧ s' = s)
    ∨ ∃ i id next, (s.slots i).occupied = false
      ∧ mint s.isIdLiveLocked (2 ^ 32)
        (if s.idSeeded then s.nextId else ticks.toUInt32) = some (id, next)
      ∧ r = ⟨.ok, some id, .empty⟩
      ∧ s' = { s with
          idSeeded := true
          nextId := next
          slots := Function.update s.slots i ⟨true, id, result⟩ } := by
  unfold insert at h
  split at h
  next hfull =>
    cases h
    exact Or.inl ⟨hfull, rfl, rfl⟩
  next i hi =>
    split at h
    next => cases h
    next id minted hmint =>
      cases h
      obtain ⟨next, hnext, rfl⟩ := mintIdLocked_some hmint
      have hfree := findFirst_some hi
      exact Or.inr ⟨i, id, next, by simpa using hfree, hnext, rfl, rfl⟩

theorem insert_total (s : JsonDocumentStore F) (result : FlattenResult F)
    (ticks : UInt64) : ∃ r, s.insert result ticks = some r := by
  unfold insert
  split
  · exact ⟨_, rfl⟩
  · obtain ⟨⟨id, minted⟩, hmint⟩ := mintIdLocked_total s ticks
    rw [hmint]
    exact ⟨_, rfl⟩

-- ============================================================== the writes

/-- A free slot filled under an id that is not in the map. -/
theorem Represents.fill (hs : Represents s t) {i : Fin kJsonDocumentSlotCount}
    {next : UInt32} (hi : (s.slots i).occupied = false) (h0 : id ≠ 0)
    (hnew : id ∉ t.documents) (result : FlattenResult F) :
    Represents
      { s with
        idSeeded := true
        nextId := next
        slots := Function.update s.slots i ⟨true, id, result⟩ }
      ⟨t.documents.insert id result, some next⟩ := by
  have hold : ∀ j, (s.slots j).occupied = true → j ≠ i := by
    intro j hj heq
    rw [heq, hi] at hj
    cases hj
  have hother : ∀ j, (s.slots j).occupied = true → (s.slots j).id ≠ id := by
    intro j hj heq
    apply hnew
    apply Finmap.mem_of_lookup_eq_some
    exact (hs.lookup id _).mpr ⟨j, hj, heq, rfl⟩
  constructor
  case nonzero =>
    intro j hj
    by_cases hji : j = i
    · subst hji
      simpa using h0
    · simp only [Function.update_of_ne hji] at hj ⊢
      exact hs.nonzero j hj
  case distinct =>
    intro j k hj hk hjk
    by_cases hji : j = i
    · by_cases hki : k = i
      · rw [hji, hki]
      · subst hji
        simp only [Function.update_of_ne hki, Function.update_self]
          at hk hjk
        exact absurd hjk.symm (hother k hk)
    · by_cases hki : k = i
      · subst hki
        simp only [Function.update_of_ne hji, Function.update_self]
          at hj hjk
        exact absurd hjk (hother j hj)
      · simp only [Function.update_of_ne hji, Function.update_of_ne hki]
          at hj hk hjk
        exact hs.distinct j k hj hk hjk
  case lookup =>
    intro id' r
    dsimp only
    by_cases hid : id' = id
    · subst hid
      rw [Finmap.lookup_insert, Option.some.injEq]
      constructor
      · intro h
        exact ⟨i, by simp [h]⟩
      · intro ⟨j, hj, hjid, hjr⟩
        by_cases hji : j = i
        · subst hji
          simpa using hjr
        · simp only [Function.update_of_ne hji] at hj hjid
          exact absurd hjid (hother j hj)
    · rw [Finmap.lookup_insert_of_ne _ hid, hs.lookup]
      constructor
      · intro ⟨j, hj, hjid, hjr⟩
        refine ⟨j, ?_⟩
        simp only [Function.update_of_ne (hold j hj)]
        exact ⟨hj, hjid, hjr⟩
      · intro ⟨j, hj, hjid, hjr⟩
        by_cases hji : j = i
        · subst hji
          simp only [Function.update_self] at hjid
          exact absurd hjid.symm hid
        · simp only [Function.update_of_ne hji] at hj hjid hjr
          exact ⟨j, hj, hjid, hjr⟩
  case size =>
    have hcount := count_update Slot.occupied s.slots i ⟨true, id, result⟩
    rw [hi] at hcount
    rw [Documents.size_insert hnew, hs.size]
    simpa using hcount.symm
  case counter => rfl

/-- The slot of an id vacated. -/
theorem Represents.vacate (hs : Represents s t)
    {i : Fin kJsonDocumentSlotCount} (hi : (s.slots i).occupied = true)
    (hid : (s.slots i).id = id) :
    Represents
      { s with slots := Function.update s.slots i vacated }
      { t with documents := t.documents.erase id } := by
  constructor
  case nonzero =>
    intro j hj
    by_cases hji : j = i
    · subst hji
      simp [vacated] at hj
    · simp only [Function.update_of_ne hji] at hj ⊢
      exact hs.nonzero j hj
  case distinct =>
    intro j k hj hk hjk
    by_cases hji : j = i
    · subst hji
      simp [vacated] at hj
    · by_cases hki : k = i
      · subst hki
        simp [vacated] at hk
      · simp only [Function.update_of_ne hji, Function.update_of_ne hki]
          at hj hk hjk
        exact hs.distinct j k hj hk hjk
  case lookup =>
    intro id' r
    dsimp only
    by_cases heq : id' = id
    · subst heq
      rw [Finmap.lookup_erase]
      constructor
      · intro h
        cases h
      · intro ⟨j, hj, hjid, _⟩
        by_cases hji : j = i
        · subst hji
          simp [vacated] at hj
        · simp only [Function.update_of_ne hji] at hj hjid
          exact absurd (hs.distinct j i hj hi (hjid.trans hid.symm)) hji
    · rw [Finmap.lookup_erase_ne heq, hs.lookup]
      constructor
      · intro ⟨j, hj, hjid, hjr⟩
        have hji : j ≠ i := by
          intro h
          rw [h, hid] at hjid
          exact heq hjid.symm
        refine ⟨j, ?_⟩
        simp only [Function.update_of_ne hji]
        exact ⟨hj, hjid, hjr⟩
      · intro ⟨j, hj, hjid, hjr⟩
        by_cases hji : j = i
        · subst hji
          simp [vacated] at hj
        · simp only [Function.update_of_ne hji] at hj hjid hjr
          exact ⟨j, hj, hjid, hjr⟩
  case size =>
    have hmem : id ∈ t.documents := by
      apply Finmap.mem_of_lookup_eq_some
      exact (hs.lookup id _).mpr ⟨i, hi, hid, rfl⟩
    have hsize := Documents.size_erase hmem
    have hcount := count_update Slot.occupied s.slots i vacated
    have hold := hs.size
    rw [hi] at hcount
    simp only [vacated] at hcount
    show Documents.size (t.documents.erase id) = _
    simp at hcount
    simp only [vacated]
    omega
  case counter => exact hs.counter

/-- A store without documents. -/
theorem represents_empty (counter : Option UInt32)
    (hcounter : counter = if s.idSeeded then some s.nextId else none)
    (hempty : ∀ i, (s.slots i).occupied = false) :
    Represents s ⟨∅, counter⟩ := by
  constructor
  case nonzero =>
    intro i hi
    rw [hempty i] at hi
    cases hi
  case distinct =>
    intro i j hi
    rw [hempty i] at hi
    cases hi
  case lookup =>
    intro id r
    dsimp only
    rw [Finmap.lookup_empty]
    constructor
    · intro h
      cases h
    · intro ⟨i, hi, _⟩
      rw [hempty i] at hi
      cases hi
  case size =>
    show 0 = _
    symm
    rw [count_eq_zero]
    exact hempty
  case counter => exact hcounter

theorem Represents.vacateAll (hs : Represents s t) :
    Represents
      { s with slots := fun i =>
          if (s.slots i).occupied then vacated else s.slots i }
      { t with documents := ∅ } := by
  have hfree : ∀ i, (if (s.slots i).occupied then vacated
      else s.slots i).occupied = false := by
    intro i
    cases hi : (s.slots i).occupied with
    | true => rfl
    | false => simpa using hi
  exact represents_empty t.counter hs.counter hfree

end JsonDocumentStore

-- ======================================================== the specification

variable [JsonFloat F]

/-- What a call does to the map and answers. -/
def StoreSpec (t : DocumentMap F) (a : StoreAction F ρ)
    (b : StoreAnswer F ρ) (t' : DocumentMap F) : Prop :=
  match a with
  | .insert result _ =>
      if t.documents.size = kJsonDocumentSlotCount then
        b = .inserted ⟨.noFreeDocumentSlot, none, result⟩ ∧ t' = t
      else ∃ id, id ≠ 0 ∧ id ∉ t.documents
        ∧ b = .inserted ⟨.ok, some id, .empty⟩
        ∧ t' = ⟨t.documents.insert id result, some (id + 1)⟩
  | .count documentId =>
      t' = t ∧ b = match t.documents.lookup documentId with
        | none => .counted .unknownDocumentId none
        | some r => .counted .ok (some (UInt32.ofNat r.entries.length))
  | .readEntry documentId entryIndex key value =>
      t' = t ∧ b = match t.documents.lookup documentId with
        | none => .entry .unknownDocumentId key value none
        | some r =>
            let (status, key, value, valueType) :=
              JsonDocumentStore.readEntryOf r entryIndex key value
            .entry status key value valueType
  | .readValue documentId path value =>
      t' = t ∧ b = match t.documents.lookup documentId with
        | none => .value .unknownDocumentId value none
        | some r =>
            let (status, value, valueType) :=
              JsonDocumentStore.readValueOf r path value
            .value status value valueType
  | .readWithTokens documentId path read =>
      t' = t ∧ b = match parsePath path with
        | .error pathStatus => .read pathStatus none
        | .ok tokens =>
            match t.documents.lookup documentId with
            | none => .read .unknownDocumentId none
            | some r =>
                .read (read r.document tokens).1
                  (some (read r.document tokens).2)
  | .discard documentId =>
      if documentId ∈ t.documents then
        b = .discarded .ok
          ∧ t' = { t with documents := t.documents.erase documentId }
      else b = .discarded .unknownDocumentId ∧ t' = t
  | .discardAll =>
      b = .discardedAll .ok (UInt32.ofNat t.documents.size)
        ∧ t' = { t with documents := ∅ }

/-- A call that takes a document out of the map. -/
def Discards (id : UInt32) : StoreAction F ρ → Prop
  | .discard documentId => documentId = id
  | .discardAll => True
  | _ => False

/-- A document stays under its id until it is discarded. -/
theorem StoreSpec.keeps {t t' : DocumentMap F} {a : StoreAction F ρ}
    {b : StoreAnswer F ρ} {id : UInt32} {r : FlattenResult F}
    (hspec : StoreSpec t a b t') (h : t.documents.lookup id = some r)
    (hdiscard : ¬ Discards id a) : t'.documents.lookup id = some r := by
  cases a with
  | insert result ticks =>
      unfold StoreSpec at hspec
      dsimp only at hspec
      split at hspec
      · rw [hspec.2]
        exact h
      · obtain ⟨id', -, hnew, -, rfl⟩ := hspec
        rw [Finmap.lookup_insert_of_ne _ (not_mem_of_lookup h hnew)]
        exact h
  | discard documentId =>
      unfold StoreSpec at hspec
      dsimp only at hspec
      split at hspec
      · rw [hspec.2, Finmap.lookup_erase_ne fun heq => hdiscard heq.symm]
        exact h
      · rw [hspec.2]
        exact h
  | discardAll => exact absurd trivial hdiscard
  | count => exact hspec.1 ▸ h
  | readEntry => exact hspec.1 ▸ h
  | readValue => exact hspec.1 ▸ h
  | readWithTokens => exact hspec.1 ▸ h

namespace JsonDocumentStore

variable {s s' : JsonDocumentStore F} {t : DocumentMap F} {id : UInt32}

-- =============================================================== every call

/-- Every call comes back. -/
theorem step_total (s : JsonDocumentStore F) (a : StoreAction F ρ) :
    ∃ b s', s.step a = some (b, s') := by
  cases a with
  | insert result ticks =>
      obtain ⟨⟨r, s'⟩, hr⟩ := insert_total s result ticks
      exact ⟨.inserted r, s', by simp only [step, hr]⟩
  | _ => exact ⟨_, _, rfl⟩

/-- Every call does to the map what the map's own call does. -/
theorem represents_step (hs : Represents s t) {a : StoreAction F ρ}
    {b : StoreAnswer F ρ} (hst : s.step a = some (b, s')) :
    ∃ t', StoreSpec t a b t' ∧ Represents s' t' := by
  cases a with
  | insert result ticks =>
      obtain ⟨⟨r, s₁⟩, hins⟩ := insert_total s result ticks
      simp only [step, hins] at hst
      cases hst
      rcases insert_cases hins with ⟨hfull, rfl, rfl⟩ |
        ⟨i, id, next, hi, hmint, rfl, rfl⟩
      · refine ⟨t, ?_, hs⟩
        unfold StoreSpec
        dsimp only
        rw [if_pos (hs.full_iff.mp hfull)]
        exact ⟨rfl, rfl⟩
      · obtain ⟨h0, hfresh, rfl, -⟩ := mint_some hmint
        have hnew : id ∉ t.documents := by
          rw [hs.mem_iff, hfresh]
          exact Bool.false_ne_true
        have hroom : t.documents.size ≠ kJsonDocumentSlotCount := by
          rw [hs.size]
          intro hfull
          rw [count_eq_size.mp hfull i] at hi
          cases hi
        refine ⟨_, ?_, hs.fill hi h0 hnew result⟩
        unfold StoreSpec
        dsimp only
        rw [if_neg hroom]
        exact ⟨id, h0, hnew, rfl, rfl⟩
  | discard documentId =>
      rcases hlookup : t.documents.lookup documentId with _ | r
      · simp only [step, discard, hs.find_none hlookup] at hst
        cases hst
        refine ⟨t, ?_, hs⟩
        unfold StoreSpec
        dsimp only
        rw [if_neg (Finmap.lookup_eq_none.mp hlookup)]
        exact ⟨rfl, rfl⟩
      · obtain ⟨i, hfind, hocc, hid, -⟩ := hs.find_some hlookup
        simp only [step, discard, hfind] at hst
        cases hst
        refine ⟨_, ?_, hs.vacate hocc hid⟩
        unfold StoreSpec
        dsimp only
        rw [if_pos (Finmap.mem_of_lookup_eq_some hlookup)]
        exact ⟨rfl, rfl⟩
  | discardAll =>
      cases hst
      refine ⟨_, ⟨?_, rfl⟩, hs.vacateAll⟩
      rw [hs.size]
  | count documentId =>
      cases hst
      refine ⟨t, ⟨rfl, ?_⟩, hs⟩
      rw [hs.lookup_eq]
      rcases s.findLiveSlotLocked documentId with _ | i <;> rfl
  | readEntry documentId entryIndex key value =>
      cases hst
      refine ⟨t, ⟨rfl, ?_⟩, hs⟩
      rw [hs.lookup_eq]
      rcases s.findLiveSlotLocked documentId with _ | i <;> rfl
  | readValue documentId path value =>
      cases hst
      refine ⟨t, ⟨rfl, ?_⟩, hs⟩
      rw [hs.lookup_eq]
      rcases s.findLiveSlotLocked documentId with _ | i <;> rfl
  | readWithTokens documentId path read =>
      cases hst
      refine ⟨t, ⟨rfl, ?_⟩, hs⟩
      rcases parsePath path with pathStatus | tokens
      · rfl
      · dsimp only
        rw [hs.lookup_eq]
        rcases s.findLiveSlotLocked documentId with _ | i <;> rfl

/-- The maps a new store is. -/
def StartMap (t : DocumentMap F) : Prop := t.documents = ∅

theorem storeMachine_simulates :
    Machine.Simulates (storeMachine F ρ) StartMap StoreSpec Represents where
  init s hs := by
    rcases hs with rfl | ⟨firstId, rfl⟩
    · exact ⟨⟨∅, none⟩, rfl, represents_empty none rfl fun _ => rfl⟩
    · exact ⟨⟨∅, some firstId⟩, rfl,
        represents_empty (some firstId) rfl fun _ => rfl⟩
  step s t a b s' hs hst := represents_step hs hst

/-- Every reachable store is a map. -/
theorem Represents.reach {h : List (StoreAction F ρ × StoreAnswer F ρ)}
    (hr : (storeMachine F ρ).Reach h s) : ∃ t, Represents s t := by
  obtain ⟨t, -, ht⟩ := storeMachine_simulates.reach hr
  exact ⟨t, ht⟩

/-- A document stays where it is through a run that does not discard
it. -/
theorem Represents.run {h : List (StoreAction F ρ × StoreAnswer F ρ)}
    {r : FlattenResult F} (hs : Represents s t)
    (hlookup : t.documents.lookup id = some r)
    (hrun : (storeMachine F ρ).Run s h s')
    (hdiscard : ∀ e ∈ h, ¬ Discards id e.1) :
    ∃ t', Represents s' t' ∧ t'.documents.lookup id = some r := by
  apply hrun.keeps
    (P := fun s => ∃ t, Represents s t ∧ t.documents.lookup id = some r)
  · intro s a b s' he ⟨t, ht, hlookup⟩ hst
    obtain ⟨t', hspec, ht'⟩ := represents_step ht hst
    exact ⟨t', ht', hspec.keeps hlookup (hdiscard _ he)⟩
  · exact ⟨t, hs, hlookup⟩

end JsonDocumentStore

end RestifyCapl
