/-
Minting ids from a wrapping counter. `mint` scans upwards from the
counter for the first id that is neither 0 nor taken and leaves the
counter one past it. Two facts are needed of it:

- it ends: few taken ids cannot fill a whole lap (`mint_isSome`);
- an id comes back late: between two mints of one id the counter goes
  all the way round, and every other id was either minted on the way or
  was taken all along (`Lap`, `Lap.closed`).

A lap is counted in unwrapped steps from the id it began with, so that
"all the way round" is an inequality of naturals.
-/
import Mathlib.Algebra.Group.Nat.Defs
import Mathlib.Data.Finset.Card
import Mathlib.Data.Finset.Range
import Mathlib.Data.Finset.Image

namespace RestifyCapl.Lib

/-- The first id from `next` on that is neither 0 nor taken, within
`fuel` candidates, and the counter past it. -/
def mint (taken : UInt32 → Bool) : Nat → UInt32 → Option (UInt32 × UInt32)
  | 0, _ => none
  | fuel + 1, next =>
      if next != 0 && !taken next then some (next, next + 1)
      else mint taken fuel (next + 1)

variable {taken : UInt32 → Bool} {id next next' : UInt32} {fuel : Nat}

/-- `k` steps of the counter. -/
abbrev ahead (next : UInt32) (k : Nat) : UInt32 := next + UInt32.ofNat k

theorem ahead_zero (next : UInt32) : ahead next 0 = next := by
  simp [ahead]

theorem ahead_succ (next : UInt32) (k : Nat) :
    ahead next (k + 1) = ahead (next + 1) k := by
  simp only [ahead, UInt32.ofNat_add, UInt32.ofNat_one]
  rw [UInt32.add_comm (UInt32.ofNat k) 1, UInt32.add_assoc]

theorem ahead_add (next : UInt32) (j k : Nat) :
    ahead (ahead next j) k = ahead next (j + k) := by
  simp only [ahead, UInt32.ofNat_add, UInt32.add_assoc]

/-- Within a lap the candidates are distinct. -/
theorem ahead_inj {j k : Nat} (hj : j < 2 ^ 32) (hk : k < 2 ^ 32)
    (h : ahead next j = ahead next k) : j = k := by
  have h := congrArg UInt32.toNat (UInt32.add_right_inj next |>.mp h)
  rwa [UInt32.toNat_ofNat', UInt32.toNat_ofNat', Nat.mod_eq_of_lt hj,
    Nat.mod_eq_of_lt hk] at h

-- ================================================================ one mint

/-- A minted id is nonzero and free, everything skipped before it was 0
or taken, and the counter is one past it. -/
theorem mint_some (h : mint taken fuel next = some (id, next')) :
    id ≠ 0 ∧ taken id = false ∧ next' = id + 1
      ∧ ∃ k, id = ahead next k
        ∧ ∀ j < k, ahead next j = 0 ∨ taken (ahead next j) = true := by
  induction fuel generalizing next with
  | zero => cases h
  | succ fuel ih =>
      unfold mint at h
      split at h
      case isTrue hfree =>
          rw [Bool.and_eq_true, bne_iff_ne, Bool.not_eq_true'] at hfree
          injection h with h
          rw [Prod.mk.injEq] at h
          obtain ⟨rfl, rfl⟩ := h
          exact ⟨hfree.1, hfree.2, rfl, 0, (ahead_zero next).symm,
            fun j hj => absurd hj (Nat.not_lt_zero j)⟩
      case isFalse hskip =>
          obtain ⟨hne, hfree, hnext, k, hk, hskipped⟩ := ih h
          refine ⟨hne, hfree, hnext, k + 1, by rw [ahead_succ, hk], ?_⟩
          intro j hj
          cases j with
          | zero =>
              rw [ahead_zero]
              rw [Bool.and_eq_true, bne_iff_ne, Bool.not_eq_true',
                not_and, Bool.not_eq_false] at hskip
              by_cases h0 : next = 0
              · exact Or.inl h0
              · exact Or.inr (hskip h0)
          | succ j =>
              rw [ahead_succ]
              exact hskipped j (by omega)

/-- Running out means that every candidate was 0 or taken. -/
theorem mint_none (h : mint taken fuel next = none) :
    ∀ j < fuel, ahead next j = 0 ∨ taken (ahead next j) = true := by
  induction fuel generalizing next with
  | zero => exact fun j hj => absurd hj (Nat.not_lt_zero j)
  | succ fuel ih =>
      unfold mint at h
      split at h
      case isTrue => cases h
      case isFalse hskip =>
          intro j hj
          cases j with
          | zero =>
              rw [ahead_zero]
              rw [Bool.and_eq_true, bne_iff_ne, Bool.not_eq_true',
                not_and, Bool.not_eq_false] at hskip
              by_cases h0 : next = 0
              · exact Or.inl h0
              · exact Or.inr (hskip h0)
          | succ j =>
              rw [ahead_succ]
              exact ih h j (by omega)

/-- With fewer taken ids than candidates the loop ends. -/
theorem mint_isSome {ids : List UInt32} (hids : ∀ v, taken v = true → v ∈ ids)
    (hfuel : ids.length + 2 ≤ fuel) (hlap : fuel ≤ 2 ^ 32)
    (next : UInt32) : (mint taken fuel next).isSome = true := by
  cases h : mint taken fuel next with
  | some r => rfl
  | none =>
      have hall := mint_none h
      have hsub : (Finset.range fuel).image (ahead next)
          ⊆ (0 :: ids).toFinset := by
        intro v hv
        obtain ⟨j, hj, rfl⟩ := Finset.mem_image.mp hv
        rw [List.mem_toFinset, List.mem_cons]
        rcases hall j (Finset.mem_range.mp hj) with h0 | ht
        · exact Or.inl h0
        · exact Or.inr (hids _ ht)
      have hcard : ((Finset.range fuel).image (ahead next)).card = fuel := by
        rw [Finset.card_image_of_injOn, Finset.card_range]
        intro j hj k hk hjk
        rw [Finset.coe_range, Set.mem_Iio] at hj hk
        exact ahead_inj (by omega) (by omega) hjk
      have hle := Finset.card_le_card hsub
      have hlen := List.toFinset_card_le (0 :: ids)
      rw [List.length_cons] at hlen
      omega

-- ================================================================== a lap

/-- The counter has gone `n` steps past `x`, over seen ids only. -/
structure Lap (x next : UInt32) (seen : UInt32 → Prop) (n : Nat) :
    Prop where
  counter : next = ahead x (n + 1)
  passed : ∀ j, 0 < j → j ≤ n → seen (ahead x j)

/-- A lap begins where its id is minted. -/
theorem Lap.start (x : UInt32) (seen : UInt32 → Prop) :
    Lap x (x + 1) seen 0 := by
  refine ⟨by simp [ahead], fun j hpos hle => ?_⟩
  omega

theorem Lap.mono {x : UInt32} {seen seen' : UInt32 → Prop} {n : Nat}
    (hl : Lap x next seen n) (h : ∀ v, seen v → seen' v) :
    Lap x next seen' n :=
  ⟨hl.counter, fun j hpos hle => h _ (hl.passed j hpos hle)⟩

/-- A mint goes on with the lap; what it skips and what it gives are
seen. -/
theorem Lap.mint {x : UInt32} {seen : UInt32 → Prop} {n : Nat}
    (hl : Lap x next seen n)
    (h : Lib.mint taken fuel next = some (id, next'))
    (hzero : seen 0) (htaken : ∀ v, taken v = true → seen v)
    (hid : seen id) :
    ∃ m, 0 < m ∧ id = ahead x m ∧ Lap x next' seen m := by
  obtain ⟨-, -, hnext, k, hk, hskipped⟩ := mint_some h
  rw [hl.counter, ahead_add] at hk
  refine ⟨n + 1 + k, by omega, hk, ?_, ?_⟩
  · rw [hnext, hk]
    simp only [ahead, UInt32.ofNat_add, UInt32.ofNat_one, UInt32.add_assoc]
  · intro j hpos hle
    by_cases hold : j ≤ n
    · exact hl.passed j hpos hold
    · by_cases hlast : j = n + 1 + k
      · rw [hlast, ← hk]
        exact hid
      · have hj := hskipped (j - (n + 1)) (by omega)
        rw [hl.counter, ahead_add, show n + 1 + (j - (n + 1)) = j by omega]
          at hj
        rcases hj with h0 | ht
        · rw [h0]
          exact hzero
        · exact htaken _ ht

/-- A lap that comes back to its id has seen every other one. -/
theorem Lap.closed {x : UInt32} {seen : UInt32 → Prop} {n : Nat}
    (hl : Lap x next seen n) (hpos : 0 < n) (hx : x = ahead x n)
    (v : UInt32) (hv : v ≠ x) : seen v := by
  have hn : 2 ^ 32 ≤ n := by
    by_contra hlt
    have hzero : ahead x n = ahead x 0 := by rw [← hx, ahead_zero]
    have := ahead_inj (by omega) (by decide) hzero
    omega
  have hj : ahead x (v - x).toNat = v := by
    rw [ahead, UInt32.ofNat_toNat, UInt32.add_comm, UInt32.sub_add_cancel]
  rw [← hj]
  refine hl.passed _ ?_ ?_
  · rcases Nat.eq_zero_or_pos (v - x).toNat with h0 | hp
    · rw [h0, ahead_zero] at hj
      exact absurd hj.symm hv
    · exact hp
  · have := UInt32.toNat_lt (v - x)
    omega

/-- Where all but the ids in `kept` were minted on the way, that is all
but a few of the 2^32. -/
theorem lap_count {x : UInt32} {kept minted : List UInt32}
    (h : ∀ v, v ≠ x → v = 0 ∨ v ∈ kept ∨ v ∈ minted) :
    2 ^ 32 - (kept.length + 2) ≤ (minted.toFinset.erase x).card := by
  have hall : ((Finset.range (2 ^ 32)).image UInt32.ofNat)
      ⊆ insert x (insert 0 (kept.toFinset ∪ minted.toFinset.erase x)) := by
    intro v _
    by_cases hv : v = x
    · rw [hv]
      exact Finset.mem_insert_self ..
    · rcases h v hv with h0 | hk | hm
      · rw [h0]
        exact Finset.mem_insert_of_mem (Finset.mem_insert_self ..)
      · refine Finset.mem_insert_of_mem (Finset.mem_insert_of_mem ?_)
        exact Finset.mem_union_left _ (List.mem_toFinset.mpr hk)
      · refine Finset.mem_insert_of_mem (Finset.mem_insert_of_mem ?_)
        exact Finset.mem_union_right _ (Finset.mem_erase.mpr
          ⟨hv, List.mem_toFinset.mpr hm⟩)
  have hcard : ((Finset.range (2 ^ 32)).image UInt32.ofNat).card
      = 2 ^ 32 := by
    rw [Finset.card_image_of_injOn, Finset.card_range]
    intro j hj k hk hjk
    rw [Finset.coe_range, Set.mem_Iio] at hj hk
    have h := congrArg UInt32.toNat hjk
    rwa [UInt32.toNat_ofNat', UInt32.toNat_ofNat', Nat.mod_eq_of_lt hj,
      Nat.mod_eq_of_lt hk] at h
  have hle := Finset.card_le_card hall
  have h₁ := Finset.card_insert_le x
    (insert 0 (kept.toFinset ∪ minted.toFinset.erase x))
  have h₂ := Finset.card_insert_le 0 (kept.toFinset ∪ minted.toFinset.erase x)
  have h₃ := Finset.card_union_le kept.toFinset (minted.toFinset.erase x)
  have h₄ := List.toFinset_card_le kept
  omega

end RestifyCapl.Lib
