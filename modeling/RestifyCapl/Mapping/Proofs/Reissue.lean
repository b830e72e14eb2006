/-
The document store refines its map, and an id comes back late. Every
event of the store mints one id past the held ones, or none, and seven
are held beside the one that is issued; the rest is `Lib.MintsFrom`.
-/
import RestifyCapl.Mapping.Proofs.DocumentMap
import RestifyCapl.Lib.Minting

namespace RestifyCapl

open Lib

variable {F ρ : Type}

/-- The id an event issued. -/
def issued? : StoreAction F ρ × StoreAnswer F ρ → Option UInt32
  | (_, .inserted r) => r.documentId
  | _ => none

/-- The ids a history issued, in order. -/
def issuedIds (h : List (StoreAction F ρ × StoreAnswer F ρ)) : List UInt32 :=
  h.filterMap issued?

/-- An inserted result is held under the id it was issued. -/
theorem StoreSpec.inserted [JsonFloat F] {x : UInt32}
    {t t' : DocumentMap F} {result : FlattenResult F}
    {ticks : UInt64} {b : StoreAnswer F ρ}
    (hspec : StoreSpec t (.insert result ticks) b t')
    (hissue : issued? (StoreAction.insert (ρ := ρ) result ticks, b) = some x) :
    t'.documents.lookup x = some result := by
  unfold StoreSpec at hspec
  dsimp only at hspec
  split at hspec
  · rw [hspec.1] at hissue
    cases hissue
  · obtain ⟨id, -, -, rfl, rfl⟩ := hspec
    injection hissue with hissue
    rw [← hissue]
    exact Finmap.lookup_insert _

namespace JsonDocumentStore

variable {s s' : JsonDocumentStore F} {x id : UInt32}

-- ============================================================== one step

/-- The id counter of the store. -/
def documentCounter (F : Type) : Counter (JsonDocumentStore F) where
  seeded s := s.idSeeded
  next s := s.nextId
  Holds s id := s.Holds id

/-- Vacating slots is idle. -/
theorem idle_of_slots {slots : Fin kJsonDocumentSlotCount → Slot F}
    (h : ∀ i, (slots i).occupied = true → slots i = s.slots i) :
    (documentCounter F).Idle s { s with slots := slots } := by
  refine ⟨rfl, rfl, ?_⟩
  intro id ⟨i, hocc, hid⟩
  have hsame := h i hocc
  exact ⟨i, hsame ▸ hocc, hsame ▸ hid⟩

/-- The ids in the other slots. -/
theorem others_of_update {slot : Slot F} {i : Fin kJsonDocumentSlotCount}
    (hslots : s'.slots = Function.update s.slots i slot)
    (hslot : slot.id = id) :
    ∃ kept : List UInt32, kept.length = kJsonDocumentSlotCount - 1
      ∧ ∀ id', s'.Holds id' → id' = id ∨ id' ∈ kept := by
  refine ⟨others (fun j => (s.slots j).id) i, others_length _ i, ?_⟩
  intro id' ⟨j, _, hid⟩
  rw [hslots] at hid
  by_cases hji : j = i
  · rw [hji, Function.update_self, hslot] at hid
    exact Or.inl hid.symm
  · rw [Function.update_of_ne hji] at hid
    rw [← hid]
    exact Or.inr (mem_others hji)

/-- Every event issues an id or is idle. -/
theorem step_issues [JsonFloat F] {a : StoreAction F ρ}
    {b : StoreAnswer F ρ} (hst : s.step a = some (b, s')) :
    (issued? (a, b) = none ∧ (documentCounter F).Idle s s')
      ∨ ∃ id, issued? (a, b) = some id
        ∧ (documentCounter F).Mints (kJsonDocumentSlotCount - 1) s id
          s' := by
  cases a with
  | insert result ticks =>
      obtain ⟨⟨r, s₁⟩, hins⟩ := insert_total s result ticks
      simp only [step, hins] at hst
      cases hst
      rcases insert_cases hins with ⟨-, rfl, rfl⟩ |
        ⟨i, id, next, -, hmint, rfl, rfl⟩
      · exact Or.inl ⟨rfl, .refl _ _⟩
      · refine Or.inr ⟨id, rfl, ?_⟩
        constructor
        case minted =>
          intro hseeded
          have hseeded : s.idSeeded = true := hseeded
          rw [if_pos hseeded] at hmint
          exact ⟨_, hmint, fun v => isIdLiveLocked_iff.mp⟩
        case counter => exact (mint_some hmint).2.2.1
        case seeded => rfl
        case held =>
          intro id' hid
          obtain ⟨j, hocc, hid⟩ := hid
          by_cases hji : j = i
          · subst hji
            simp only [Function.update_self] at hid
            exact Or.inl hid.symm
          · simp only [Function.update_of_ne hji] at hocc hid
            exact Or.inr ⟨j, hocc, hid⟩
        case others => exact others_of_update rfl rfl
  | discard documentId =>
      cases hfind : s.findLiveSlotLocked documentId with
      | none =>
          simp only [step, discard, hfind] at hst
          cases hst
          exact Or.inl ⟨rfl, .refl _ s⟩
      | some i =>
          simp only [step, discard, hfind] at hst
          cases hst
          refine Or.inl ⟨rfl, idle_of_slots ?_⟩
          intro j hj
          by_cases hji : j = i
          · rw [hji, Function.update_self] at hj
            cases hj
          · exact Function.update_of_ne hji ..
  | discardAll =>
      cases hst
      refine Or.inl ⟨rfl, idle_of_slots ?_⟩
      intro i hi
      by_cases hocc : (s.slots i).occupied = true
      · rw [if_pos hocc] at hi
        cases hi
      · exact if_neg hocc
  | count | readEntry | readValue | readWithTokens =>
      cases hst
      exact Or.inl ⟨rfl, .refl _ s⟩

/-- The store mints from its counter. -/
theorem mintsFrom_store [JsonFloat F] :
    MintsFrom (storeMachine F ρ) (documentCounter F) issued?
      (kJsonDocumentSlotCount - 1) :=
  fun _ _ _ _ _ _ hst => step_issues hst

/-- Between two issues of one id, 2^32 - 9 other ids are issued. -/
theorem reissue_late [JsonFloat F] {p q : Nat}
    {e e' : StoreAction F ρ × StoreAnswer F ρ}
    (hr : (storeMachine F ρ).Reach h s) (hpq : p < q)
    (hp : h[p]? = some e) (hq : h[q]? = some e')
    (he : issued? e = some x) (he' : issued? e' = some x) :
    2 ^ 32 - 9 ≤ ((issuedIds (between h p q)).toFinset.erase x).card :=
  mintsFrom_store.late hr hpq hp hq he he'

-- ============================================================== the result

variable [JsonFloat F]

omit [JsonFloat F] in
theorem Represents.size_le {t : DocumentMap F} (hs : Represents s t) :
    t.documents.size ≤ kJsonDocumentSlotCount := by
  rw [hs.size]
  unfold Lib.count
  calc _ ≤ (List.ofFn s.slots).length := List.countP_le_length
    _ = kJsonDocumentSlotCount := List.length_ofFn

/-- A document is held under its id from its insertion on, until the id
is discarded. -/
theorem held_until_discarded {p q : Nat} {result : FlattenResult F}
    {ticks : UInt64} {a : StoreAction F ρ} {b b' : StoreAnswer F ρ}
    (hr : (storeMachine F ρ).Reach h s) (hpq : p < q)
    (hp : h[p]? = some (.insert result ticks, b))
    (hq : h[q]? = some (a, b'))
    (hissue : issued? (StoreAction.insert (ρ := ρ) result ticks, b) = some x)
    (hkept : ∀ (k : Nat) e, p < k → k < q → h[k]? = some e →
      ¬ Discards x e.1) :
    ∃ t t', StoreSpec t a b' t' ∧ t.documents.lookup x = some result := by
  obtain ⟨s₀, s₁, s₂, s₃, hr₀, hst, hmid, hst'⟩ := hr.between hpq hp hq
  obtain ⟨t₀, ht₀⟩ := Represents.reach hr₀
  have hst : s₀.step (.insert result ticks) = some (b, s₁) := hst
  have hst' : s₂.step a = some (b', s₃) := hst'
  obtain ⟨t₁, hspec, ht₁⟩ := represents_step ht₀ hst
  have hbetween : ∀ e ∈ between h p q, ¬ Discards x e.1 := by
    intro e he
    obtain ⟨k, hpk, hkq, hk⟩ := mem_between he
    exact hkept k e hpk hkq hk
  obtain ⟨t₂, ht₂, hlookup⟩ := ht₁.run (StoreSpec.inserted hspec hissue) hmid
    hbetween
  obtain ⟨t₃, hspec', -⟩ := represents_step ht₂ hst'
  exact ⟨t₂, t₃, hspec', hlookup⟩

/-- A history of a store, as one of a map. -/
structure BehavesAsMap (h : List (StoreAction F ρ × StoreAnswer F ρ))
    (s : JsonDocumentStore F) : Prop where
  refines : ∃ t, Machine.Traces StartMap StoreSpec h t ∧ Represents s t
    ∧ t.documents.size ≤ kJsonDocumentSlotCount
  total : ∀ a : StoreAction F ρ, ∃ b s', s.step a = some (b, s')
  held : ∀ (p q : Nat) (result : FlattenResult F) (ticks : UInt64)
    (a : StoreAction F ρ) (b b' : StoreAnswer F ρ) (id : UInt32), p < q →
    h[p]? = some (.insert result ticks, b) → h[q]? = some (a, b') →
    issued? (StoreAction.insert (ρ := ρ) result ticks, b) = some id →
    (∀ (k : Nat) e, p < k → k < q → h[k]? = some e → ¬ Discards id e.1) →
    ∃ t t', StoreSpec t a b' t' ∧ t.documents.lookup id = some result
  late : ∀ (p q : Nat) e e' (id : UInt32), p < q → h[p]? = some e →
    h[q]? = some e' →
    issued? e = some id → issued? e' = some id →
    2 ^ 32 - 9 ≤ ((issuedIds (between h p q)).toFinset.erase id).card

/-- The document store refines a map: every history of calls is one of
the map, every call comes back, a document is read under its id until
the id is discarded, and between two issues of one id at least 2^32 - 9
others are issued. -/
theorem store_refines_map (hr : (storeMachine F ρ).Reach h s) :
    BehavesAsMap h s := by
  constructor
  case refines =>
    obtain ⟨t, htrace, ht⟩ := storeMachine_simulates.reach hr
    exact ⟨t, htrace, ht, ht.size_le⟩
  case total => exact step_total s
  case held =>
    intro p q result ticks a b b' id hpq hp hq hissue hkept
    exact held_until_discarded hr hpq hp hq hissue hkept
  case late =>
    intro p q e e' id hpq hp hq he he'
    exact reissue_late hr hpq hp hq he he'

/-- Two documents across the counter's wrap; the first is discarded. -/
def acrossWrap : List (StoreAction Empty Unit) :=
  [.insert ⟨.null, [⟨[], [], .null⟩]⟩ 0, .insert ⟨.boolean true, []⟩ 0,
    .discard 4294967295, .count 1, .count 4294967295]

theorem acrossWrap_runs : ((storeMachine Empty Unit).exec
    (ofFirstId 4294967295) acrossWrap).isSome = true := by
  decide

theorem store_refines_map_acrossWrap : ∃ t t' : DocumentMap Empty,
    StoreSpec (ρ := Unit) t (.count 1) (.counted .ok (some 0)) t'
      ∧ t.documents.lookup 1 = some ⟨.boolean true, []⟩ := by
  refine (store_refines_map (.of_exec (Or.inr ⟨_, rfl⟩)
    acrossWrap_runs)).held 1 3 _ 0 _ (.inserted ⟨.ok, some 1, .empty⟩) _ 1
    (by decide) ?_ ?_ rfl ?_
  · rfl
  · rfl
  · intro k e hpk hkq hk hdiscard
    obtain rfl : k = 2 := by omega
    have h2 : (((storeMachine Empty Unit).exec (ofFirstId 4294967295)
        acrossWrap).get acrossWrap_runs).1[2]?
        = some (.discard 4294967295, .discarded .ok) := rfl
    rw [h2, Option.some.injEq] at hk
    subst hk
    cases hdiscard

end JsonDocumentStore

end RestifyCapl
