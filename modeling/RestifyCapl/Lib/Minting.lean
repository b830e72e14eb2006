/-
Machines that mint ids from a wrapping counter. `Counter` says where a
state keeps the counter and which ids it holds; a machine obeys the
counter (`MintsFrom`) when each of its steps either mints nothing and
holds no more ids, or mints one id past what is held. Then an id comes
back late: between two mints of one id the counter has gone all the way
round, and every other id was minted on the way, or was held all along,
or is zero (`MintsFrom.late`).
-/
import RestifyCapl.Lib.Machine
import RestifyCapl.Lib.Mint

namespace RestifyCapl.Lib

/-- Where a state keeps the counter, whether it has begun, and which ids
are not to be minted. -/
structure Counter (σ : Type*) where
  seeded : σ → Bool
  next : σ → UInt32
  Holds : σ → UInt32 → Prop

variable {σ α β : Type*} {C : Counter σ} {s s' : σ} {x id : UInt32} {n : Nat}

/-- A step that mints no id leaves the counter, and holds no more. -/
structure Counter.Idle (C : Counter σ) (s s' : σ) : Prop where
  seeded : C.seeded s' = C.seeded s
  counter : C.next s' = C.next s
  held : ∀ id, C.Holds s' id → C.Holds s id

/-- A step that mints `id` passes held ids only, and holds no more but
that; beside `id` there are `n` places. -/
structure Counter.Mints (C : Counter σ) (n : Nat) (s : σ) (id : UInt32)
    (s' : σ) : Prop where
  minted : C.seeded s = true →
    ∃ taken, mint taken (2 ^ 32) (C.next s) = some (id, C.next s')
      ∧ ∀ v, taken v = true → C.Holds s v
  counter : C.next s' = id + 1
  seeded : C.seeded s' = true
  held : ∀ v, C.Holds s' v → v = id ∨ C.Holds s v
  others : ∃ kept : List UInt32, kept.length = n
    ∧ ∀ v, C.Holds s' v → v = id ∨ v ∈ kept

theorem Counter.Idle.refl (C : Counter σ) (s : σ) : C.Idle s s :=
  ⟨rfl, rfl, fun _ h => h⟩

/-- The ids in a table's other places. -/
def others {m : Nat} (ids : Fin m → UInt32) (i : Fin m) : List UInt32 :=
  ((List.finRange m).erase i).map ids

theorem others_length {m : Nat} (ids : Fin m → UInt32) (i : Fin m) :
    (others ids i).length = m - 1 := by
  unfold others
  rw [List.length_map, List.length_erase_of_mem (List.mem_finRange i),
    List.length_finRange]

theorem mem_others {m : Nat} {ids : Fin m → UInt32} {i j : Fin m}
    (hji : j ≠ i) : ids j ∈ others ids i :=
  List.mem_map.mpr
    ⟨j, (List.mem_erase_of_ne hji).mpr (List.mem_finRange j), rfl⟩

/-- The machine mints from the counter the ids that `minted?` finds in
its events. -/
def MintsFrom (M : Machine σ α β) (C : Counter σ)
    (minted? : α × β → Option UInt32) (n : Nat) : Prop :=
  ∀ h s a b s', M.Reach h s → M.step s a = some (b, s') →
    (minted? (a, b) = none ∧ C.Idle s s')
      ∨ ∃ id, minted? (a, b) = some id ∧ C.Mints n s id s'

-- ================================================================== a lap

/-- What the counter may pass, after `x` was minted beside `kept` and the
ids in `ids` since. -/
def Seen (x : UInt32) (kept ids : List UInt32) (v : UInt32) : Prop :=
  v = 0 ∨ v = x ∨ v ∈ kept ∨ v ∈ ids

/-- The state is on its way from a mint of `x`. -/
structure Counter.OnLap (C : Counter σ) (x : UInt32)
    (kept ids : List UInt32) (s : σ) : Prop where
  seeded : C.seeded s = true
  lap : ∃ n, Lap x (C.next s) (Seen x kept ids) n
  held : ∀ v, C.Holds s v → Seen x kept ids v

variable {kept ids : List UInt32}

theorem Seen.append {v : UInt32} (hv : Seen x kept ids v)
    (ids' : List UInt32) : Seen x kept (ids ++ ids') v := by
  rcases hv with h0 | hx | hk | hi
  · exact Or.inl h0
  · exact Or.inr (Or.inl hx)
  · exact Or.inr (Or.inr (Or.inl hk))
  · exact Or.inr (Or.inr (Or.inr (List.mem_append_left _ hi)))

theorem Seen.new (x : UInt32) (kept ids : List UInt32) (id : UInt32) :
    Seen x kept (ids ++ [id]) id :=
  Or.inr (Or.inr (Or.inr
    (List.mem_append_right _ (List.mem_singleton_self _))))

namespace Counter

/-- Minting `x` starts a lap. -/
theorem Mints.onLap (hm : C.Mints n s x s') :
    ∃ kept : List UInt32, kept.length = n ∧ C.OnLap x kept [] s' := by
  obtain ⟨kept, hlength, hkept⟩ := hm.others
  refine ⟨kept, hlength, hm.seeded, ⟨0, ?_⟩, ?_⟩
  · rw [hm.counter]
    exact .start x _
  · intro v hv
    rcases hkept v hv with hx | hk
    · exact Or.inr (Or.inl hx)
    · exact Or.inr (Or.inr (Or.inl hk))

theorem OnLap.idle (hl : C.OnLap x kept ids s) (hi : C.Idle s s') :
    C.OnLap x kept ids s' := by
  refine ⟨?_, ?_, fun v hv => hl.held v (hi.held v hv)⟩
  · rw [hi.seeded]
    exact hl.seeded
  · rw [hi.counter]
    exact hl.lap

/-- A mint goes on with the lap. -/
theorem OnLap.mints (hl : C.OnLap x kept ids s) (hm : C.Mints n s id s') :
    C.OnLap x kept (ids ++ [id]) s' := by
  obtain ⟨m, hlap⟩ := hl.lap
  obtain ⟨taken, hmint, htaken⟩ := hm.minted hl.seeded
  have hlap := hlap.mono fun v hv => hv.append [id]
  obtain ⟨m, -, -, hlap⟩ := hlap.mint hmint (Or.inl rfl)
    (fun v hv => (hl.held v (htaken v hv)).append _) (Seen.new ..)
  refine ⟨hm.seeded, ⟨m, hlap⟩, fun v hv => ?_⟩
  rcases hm.held v hv with rfl | hv
  · exact Seen.new ..
  · exact (hl.held v hv).append _

/-- When `x` is minted again, every other id was seen. -/
theorem OnLap.closed (hl : C.OnLap x kept ids s) (hm : C.Mints n s x s')
    (v : UInt32) (hv : v ≠ x) : Seen x kept ids v := by
  obtain ⟨m, hlap⟩ := hl.lap
  obtain ⟨taken, hmint, htaken⟩ := hm.minted hl.seeded
  obtain ⟨m, hpos, hx, hlap⟩ := hlap.mint hmint (Or.inl rfl)
    (fun v hv => hl.held v (htaken v hv)) (Or.inr (Or.inl rfl))
  exact hlap.closed hpos hx v hv

end Counter

-- =============================================================== whole runs

variable {M : Machine σ α β} {minted? : α × β → Option UInt32}

theorem MintsFrom.run (hM : MintsFrom M C minted? n) {h h' : List (α × β)}
    (hr : M.Reach h s) (hl : C.OnLap x kept ids s) (hrun : M.Run s h' s') :
    C.OnLap x kept (ids ++ h'.filterMap minted?) s' := by
  induction hrun with
  | nil =>
      rw [List.filterMap_nil, List.append_nil]
      exact hl
  | @snoc s₁ s₂ h' a b hrun hst ih =>
      rw [List.filterMap_append]
      rcases hM _ _ _ _ _ (hr.run hrun) hst with
        ⟨hnone, hidle⟩ | ⟨id, hid, hmints⟩
      · simpa [hnone] using ih.idle hidle
      · simpa [hid] using ih.mints hmints

/-- Between two mints of one id all but a few ids are minted. -/
theorem MintsFrom.late (hM : MintsFrom M C minted? n) {h : List (α × β)}
    {p q : Nat} {e e' : α × β} (hr : M.Reach h s) (hpq : p < q)
    (hp : h[p]? = some e) (hq : h[q]? = some e')
    (he : minted? e = some x) (he' : minted? e' = some x) :
    2 ^ 32 - (n + 2)
      ≤ (((between h p q).filterMap minted?).toFinset.erase x).card := by
  obtain ⟨s₀, s₁, s₂, s₃, hr₀, hst, hmid, hst'⟩ := hr.between hpq hp hq
  have hmints : ∀ {h s s'} {a : α} {b : β}, M.Reach h s →
      M.step s a = some (b, s') → minted? (a, b) = some x →
      C.Mints n s x s' := by
    intro h s s' a b hr hst hid
    rcases hM h s a b s' hr hst with ⟨hnone, -⟩ | ⟨id, hid', hm⟩
    · rw [hnone] at hid
      cases hid
    · rw [hid', Option.some.injEq] at hid
      rwa [hid] at hm
  have hr₁ := hr₀.step hst
  obtain ⟨kept, hlength, hlap⟩ := (hmints hr₀ hst he).onLap
  have hlap := hM.run hr₁ hlap hmid
  rw [List.nil_append] at hlap
  have hcount := lap_count fun v hv => by
    rcases hlap.closed (hmints (hr₁.run hmid) hst' he') v hv with
      h0 | hx | hseen
    · exact Or.inl h0
    · exact absurd hx hv
    · exact Or.inr hseen
  rwa [hlength] at hcount

end RestifyCapl.Lib
