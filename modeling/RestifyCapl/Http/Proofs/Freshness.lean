/-
Request ids are fresh. A minted id is nonzero and no other slot's, the
loop that mints it looks at nine candidates at most, and it comes back
late: between two mints of one id the counter goes once round
(`Lib.Lap`), over ids that were minted on the way, or live all along, or
zero, and beside the slot that is filled there are seven.

An id is minted also by a Dispatch that then fails to start a worker. It
is never told to the caller, so the results are about the machine that
adds the minted id to the answer (`mintMachine`).
-/
import RestifyCapl.Http.Proofs.Lifecycle
import RestifyCapl.Lib.Minting

namespace RestifyCapl.Http

open Lib
open AsyncEngine

variable {T : Type} {s s' : System T} {id x : UInt32}

-- ============================================================ minted ids

/-- The engine `Dispatch` mints in: the contents of the slot it found are
freed, its state is not yet. -/
def AsyncEngine.freedAt (e : AsyncEngine T)
    (i : Fin kAsyncRequestSlotCount) : AsyncEngine T :=
  e.setSlot i (freeSlotContentsLocked (e.slots i))

/-- What `MintIdLocked` returns in a step, if it is called. -/
def minted (s : System T) : Action T → Option UInt32
  | .dispatch _ _ _ seed =>
      match s.engine.findSlotForDispatchLocked with
      | none => none
      | some i => ((s.engine.freedAt i).mintIdLocked seed).map Prod.fst
  | _ => none

/-- The engine with its callers, telling the ids it mints. -/
def mintMachine (T : Type) :
    Machine (System T) (Action T) (Answer T × Option UInt32) :=
  (asyncMachine T).tracing minted

/-- The ids a history minted, in order. -/
def mintedIds (h : List (Action T × (Answer T × Option UInt32))) :
    List UInt32 :=
  h.filterMap fun e => e.2.2

variable {h : List (Action T × (Answer T × Option UInt32))}

-- ============================================================== the loop

/-- A slot that is not reusable holds the id. -/
def AsyncEngine.Holds (e : AsyncEngine T) (id : UInt32) : Prop :=
  ∃ i, (e.slots i).isReusable = false ∧ (e.slots i).id = id

theorem isIdLiveLocked_iff {e : AsyncEngine T} :
    e.isIdLiveLocked id = true ↔ e.Holds id := by
  rw [← Bool.not_eq_false, isIdLiveLocked_eq_false]
  unfold AsyncEngine.Holds
  push Not
  rfl

/-- Freeing a reusable slot's contents frees no id. -/
theorem holds_freedAt {e : AsyncEngine T} {i}
    (hi : (e.slots i).isReusable = true) :
    (e.freedAt i).Holds id → e.Holds id := by
  rintro ⟨j, hj, hid⟩
  have hji : j ≠ i := by
    rintro rfl
    rw [AsyncEngine.freedAt, setSlot_slots, Function.update_self] at hj
    have hfree : (freeSlotContentsLocked (e.slots j)).isReusable = true := hi
    rw [hfree] at hj
    cases hj
  rw [AsyncEngine.freedAt, setSlot_slots, Function.update_of_ne hji] at hj hid
  exact ⟨j, hj, hid⟩

/-- `mintIdLocked` is one mint, from the seed or from the counter. -/
theorem mintIdLocked_counter {e e' : AsyncEngine T} {seed : UInt32}
    (h : e.mintIdLocked seed = some (id, e')) :
    mint e.isIdLiveLocked (2 ^ 32) (if e.idSeeded then e.nextId else seed)
        = some (id, e'.nextId)
      ∧ e'.idSeeded = true := by
  simp only [mintIdLocked, mintLoop_eq] at h
  split at h
  next => cases h
  next id' next hloop =>
    injection h with h
    injection h with hid he
    subst hid he
    exact ⟨hloop, rfl⟩

/-- More fuel finds the same id. -/
theorem mintLoop_fuel {live : UInt32 → Bool} {fuel fuel' : Nat}
    {next : UInt32} {r : UInt32 × UInt32}
    (hr : mintLoop live fuel next = some r) (hle : fuel ≤ fuel') :
    mintLoop live fuel' next = some r := by
  induction fuel generalizing next fuel' with
  | zero => cases hr
  | succ fuel ih =>
      obtain ⟨fuel', rfl⟩ : ∃ n, fuel' = n + 1 := ⟨fuel' - 1, by omega⟩
      unfold mintLoop at hr ⊢
      by_cases h0 : next = 0
      · rw [if_pos h0] at hr ⊢
        exact ih hr (by omega)
      · rw [if_neg h0] at hr ⊢
        by_cases hlive : (!live next) = true
        · rw [if_pos hlive] at hr ⊢
          exact hr
        · rw [if_neg hlive] at hr ⊢
          exact ih hr (by omega)

/-- Nine rounds of the minting loop are enough: zero and seven live ids
are skipped at most. -/
theorem mint_within {e : AsyncEngine T} {i}
    (hi : e.findSlotForDispatchLocked = some i) (next : UInt32) :
    ∃ r, mintLoop (e.freedAt i).isIdLiveLocked 9 next = some r
      ∧ mintLoop (e.freedAt i).isIdLiveLocked (2 ^ 32) next = some r := by
  have hreusable : (e.slots i).isReusable = true := findFirst_some hi
  have hids : ∀ v, (e.freedAt i).isIdLiveLocked v = true →
      v ∈ others (fun j => (e.slots j).id) i := by
    intro v hv
    obtain ⟨j, hj, rfl⟩ := holds_freedAt hreusable (isIdLiveLocked_iff.mp hv)
    have hji : j ≠ i := by
      rintro rfl
      rw [hreusable] at hj
      cases hj
    exact mem_others hji
  have hsome : (mint (e.freedAt i).isIdLiveLocked 9 next).isSome = true :=
    mint_isSome hids (by rw [others_length]; decide) (by decide) next
  obtain ⟨r, hr⟩ := Option.isSome_iff_exists.mp hsome
  rw [← mintLoop_eq] at hr
  exact ⟨r, hr, mintLoop_fuel hr (by decide)⟩

-- ============================================================ one dispatch

theorem startWorkerLocked_frame (e : AsyncEngine T) (start : WorkerStart) :
    (e.startWorkerLocked start).2.slots = e.slots
      ∧ (e.startWorkerLocked start).2.nextId = e.nextId
      ∧ (e.startWorkerLocked start).2.idSeeded = e.idSeeded := by
  obtain ⟨acquired, threadStarted⟩ := start
  cases acquired <;> cases threadStarted <;> exact ⟨rfl, rfl, rfl⟩

/-- What a Dispatch does to the id counter: nothing, or one mint, whose id
goes into the slot it found or nowhere. -/
theorem dispatch_minted {e : AsyncEngine T} {client : HttpClient T}
    {request : HttpRequest} {start : WorkerStart} {seed : UInt32}
    {r : DispatchResult T}
    (h : e.dispatch client request start seed = some r) :
    (e.findSlotForDispatchLocked = none ∧ r.status ≠ .ok ∧ r.engine = e)
      ∨ ∃ i id e', e.findSlotForDispatchLocked = some i
        ∧ (e.freedAt i).mintIdLocked seed = some (id, e')
        ∧ r.engine.nextId = e'.nextId ∧ r.engine.idSeeded = e'.idSeeded
        ∧ (r.status = .ok → r.requestId = id)
        ∧ ∃ a, r.engine.slots = Function.update e.slots i a
          ∧ (a.isReusable = false → a.id = id) := by
  simp only [dispatch] at h
  split at h
  next hnone =>
    injection h with h
    subst h
    exact Or.inl ⟨hnone, by simp, rfl⟩
  next i hfind =>
    split at h
    next => cases h
    next id e' hmint =>
      have hslots : (e'.setSlot i
          (dispatchedSlot (e'.slots i) i id client request)).slots
          = Function.update e.slots i
            (dispatchedSlot (e'.slots i) i id client request) := by
        rw [setSlot_slots, (mintIdLocked_some hmint).2.2.1, setSlot_slots,
          Function.update_idem]
      refine Or.inr ⟨i, id, e', hfind, hmint, ?_⟩
      generalize hfilled : e'.setSlot i
        (dispatchedSlot (e'.slots i) i id client request) = filled
        at h hslots
      have hnext : filled.nextId = e'.nextId := by rw [← hfilled]; rfl
      have hseeded : filled.idSeeded = e'.idSeeded := by rw [← hfilled]; rfl
      obtain ⟨hsslots, hsnext, hsseeded⟩ :=
        startWorkerLocked_frame filled start
      split_ifs at h with hneeds hstart hstart <;> injection h with h <;>
        subst h
      · exact ⟨hsnext.trans hnext, hsseeded.trans hseeded, fun _ => rfl, _,
          hsslots.trans hslots, fun _ => rfl⟩
      · refine ⟨hsnext.trans hnext, hsseeded.trans hseeded,
          fun h => by simp at h, freedSlot
            (dispatchedSlot (e'.slots i) i id client request), ?_,
          fun h => by cases h⟩
        rw [setSlot_slots, hsslots, hslots, Function.update_idem,
          Function.update_self]
        rfl
      · exact ⟨hnext, hseeded, fun _ => rfl, _, hslots, fun _ => rfl⟩
      · exact absurd rfl hstart

-- ================================================================ one step

/-- The id counter of the engine. -/
def requestCounter (T : Type) : Counter (System T) where
  seeded s := s.engine.idSeeded
  next s := s.engine.nextId
  Holds s id := s.engine.Holds id

/-- A Dispatch that found a slot mints. -/
theorem mints_of_dispatch {e' : AsyncEngine T} {i} {seed : UInt32}
    {a : Slot T}
    (hfind : s.engine.findSlotForDispatchLocked = some i)
    (hmint : (s.engine.freedAt i).mintIdLocked seed = some (id, e'))
    (hnext : s'.engine.nextId = e'.nextId)
    (hseeded : s'.engine.idSeeded = e'.idSeeded)
    (hslots : s'.engine.slots = Function.update s.engine.slots i a)
    (ha : a.isReusable = false → a.id = id) :
    (requestCounter T).Mints (kAsyncRequestSlotCount - 1) s id s' := by
  have hreusable : (s.engine.slots i).isReusable = true := findFirst_some hfind
  obtain ⟨hloop, hbegun⟩ := mintIdLocked_counter hmint
  -- what the step holds: the minted id, or what another slot held
  have hheld : ∀ v, s'.engine.Holds v →
      v = id ∨ ∃ j, j ≠ i ∧ (s.engine.slots j).isReusable = false
        ∧ (s.engine.slots j).id = v := by
    rintro v ⟨j, hj, hid⟩
    rw [hslots] at hj hid
    by_cases hji : j = i
    · rw [hji, Function.update_self] at hj hid
      exact Or.inl (hid.symm.trans (ha hj))
    · rw [Function.update_of_ne hji] at hj hid
      exact Or.inr ⟨j, hji, hj, hid⟩
  constructor
  case minted =>
    intro hs
    have hs : (s.engine.freedAt i).idSeeded = true := hs
    rw [if_pos hs, ← hnext] at hloop
    exact ⟨_, hloop, fun v hv =>
      holds_freedAt hreusable (isIdLiveLocked_iff.mp hv)⟩
  case counter => exact hnext.trans (mint_some hloop).2.2.1
  case seeded => exact hseeded.trans hbegun
  case held =>
    intro v hv
    rcases hheld v hv with heq | ⟨j, -, hj, hid⟩
    · exact Or.inl heq
    · exact Or.inr ⟨j, hj, hid⟩
  case others =>
    refine ⟨others (fun j => (s.engine.slots j).id) i, others_length _ i,
      fun v hv => ?_⟩
    rcases hheld v hv with heq | ⟨j, hji, -, rfl⟩
    · exact Or.inl heq
    · exact Or.inr (mem_others hji)

/-- A step that is no Dispatch holds no more ids. -/
theorem held_of_step {a : Action T} {b : Answer T} (ho : Owned s)
    (hst : s.step a = some (b, s'))
    (ha : ∀ client request start seed,
      a ≠ .dispatch client request start seed)
    {v : UInt32} (hv : s'.engine.Holds v) : s.engine.Holds v := by
  obtain ⟨j, hj, rfl⟩ := hv
  have hissue : ∀ id, ¬ Issues id (a, b) := by
    rintro id ⟨_, _, _, _, he⟩
    injection he with he
    exact ha _ _ _ _ he
  rcases step_effect hst with heff | ⟨w, call, result, response, -, hw, heff⟩
  · obtain ⟨hj, hid⟩ := heff.keptId j (hissue _) hj
    exact ⟨j, hj, hid.symm⟩
  · obtain ⟨hj, hid⟩ := heff.keptId j (hissue _) hj
    obtain ⟨hj, hid₀⟩ := finished_keptId ho hw j hj
    exact ⟨j, hj, (hid.trans hid₀).symm⟩

/-- The id counter stands. -/
def SameCounter (e e' : AsyncEngine T) : Prop :=
  e'.idSeeded = e.idSeeded ∧ e'.nextId = e.nextId

theorem workerTop_counter (e : AsyncEngine T) :
    SameCounter e e.workerTop.2 := by
  unfold workerTop
  cases e.findPendingSlotLocked <;> exact ⟨rfl, rfl⟩

theorem workerWake_counter (e : AsyncEngine T) (g : UInt64)
    (timeout : Bool) : SameCounter e (e.workerWake g timeout).2 := by
  unfold workerWake
  cases e.findPendingSlotLocked with
  | some i => exact ⟨rfl, rfl⟩
  | none =>
      dsimp only
      split <;> exact ⟨rfl, rfl⟩

theorem workerFinish_counter (e : AsyncEngine T) (i)
    (result : Status) (response : HttpResponse) :
    SameCounter e (e.workerFinish i result response) := by
  unfold workerFinish
  split <;> exact ⟨rfl, rfl⟩

theorem read_counter (e : AsyncEngine T) (id : UInt32)
    (buffer : CharBuffer) : SameCounter e (e.read id buffer).2 := by
  unfold AsyncEngine.read
  cases e.findLiveSlotLocked id with
  | none => exact ⟨rfl, rfl⟩
  | some i =>
      dsimp only
      split
      · exact ⟨rfl, rfl⟩
      · split <;> exact ⟨rfl, rfl⟩

theorem discard_counter (e : AsyncEngine T) (id : UInt32) :
    SameCounter e (e.discard id).2 := by
  unfold AsyncEngine.discard
  cases e.findLiveSlotLocked id <;> exact ⟨rfl, rfl⟩

/-- Only a Dispatch touches the id counter. -/
theorem counter_of_step {a : Action T} {b : Answer T}
    (hst : s.step a = some (b, s'))
    (ha : ∀ client request start seed,
      a ≠ .dispatch client request start seed) :
    SameCounter s.engine s'.engine := by
  unfold System.step at hst
  cases a with
  | dispatch client request start seed => exact absurd rfl (ha _ _ _ _)
  | poll id | discardAll =>
      cases hst
      exact ⟨rfl, rfl⟩
  | read id buffer =>
      cases hst
      exact read_counter _ id buffer
  | discard id =>
      cases hst
      exact discard_counter _ id
  | await id ms =>
      dsimp only at hst
      split at hst <;> cases hst <;> exact ⟨rfl, rfl⟩
  | awaitWake k timeout =>
      dsimp only at hst
      split at hst
      · split at hst <;> cases hst <;> exact ⟨rfl, rfl⟩
      · cases hst
  | firstLock w =>
      dsimp only at hst
      split at hst <;> cases hst
      exact workerTop_counter _
  | wake w timeout =>
      dsimp only at hst
      split at hst <;> cases hst
      exact workerWake_counter _ _ timeout
  | relock w =>
      dsimp only at hst
      split at hst <;> cases hst
      obtain ⟨hseeded, hnext⟩ := workerFinish_counter s.engine _ _ _
      obtain ⟨hseeded', hnext'⟩ := workerTop_counter (System.finish s _ _ _).engine
      exact ⟨hseeded'.trans hseeded, hnext'.trans hnext⟩
  | perform w =>
      dsimp only at hst
      split at hst
      · split at hst <;> cases hst
        exact ⟨rfl, rfl⟩
      · cases hst
  | observeCancel w | performReturn w answer | exitThread w =>
      dsimp only at hst
      split at hst <;> cases hst
      exact ⟨rfl, rfl⟩

/-- What the engine of a Dispatch becomes. -/
theorem dispatch_step {client : HttpClient T} {request : HttpRequest}
    {start : WorkerStart} {seed : UInt32} {b : Answer T}
    (hst : s.step (.dispatch client request start seed) = some (b, s')) :
    ∃ r, s.engine.dispatch client request start seed = some r
      ∧ b = .dispatched r.status r.requestId ∧ s'.engine = r.engine := by
  unfold System.step at hst
  dsimp only at hst
  split at hst
  · cases hst
  · cases hst
    exact ⟨_, ‹_›, rfl, rfl⟩

/-- The engine mints from its counter. -/
theorem mintsFrom_engine :
    MintsFrom (mintMachine T) (requestCounter T) (fun e => e.2.2)
      (kAsyncRequestSlotCount - 1) := by
  rintro h s a ⟨b, m⟩ s' hr htraced
  obtain ⟨hst, rfl⟩ := Machine.tracing_step.mp htraced
  change s.step a = some (b, s') at hst
  by_cases ha : ∃ client request start seed,
    a = .dispatch client request start seed
  · obtain ⟨client, request, start, seed, rfl⟩ := ha
    obtain ⟨r, hr, -, hengine⟩ := dispatch_step hst
    rcases dispatch_minted hr with
      ⟨hnone, -, hsame⟩
      | ⟨i, id, e', hfind, hmint, hnext, hseeded, -, a, hslots, ha⟩
    · refine Or.inl ⟨by simp [minted, hnone], ?_⟩
      rw [hsame] at hengine
      refine ⟨?_, ?_, fun v hv => ?_⟩
      · exact congrArg AsyncEngine.idSeeded hengine
      · exact congrArg AsyncEngine.nextId hengine
      · have hv : s'.engine.Holds v := hv
        rwa [hengine] at hv
    · refine Or.inr ⟨id, by simp [minted, hfind, hmint], ?_⟩
      rw [← hengine] at hnext hseeded hslots
      exact mints_of_dispatch hfind hmint hnext hseeded hslots ha
  · have ha : ∀ client request start seed,
        a ≠ .dispatch client request start seed :=
      fun client request start seed h => ha ⟨_, _, _, _, h⟩
    obtain ⟨hseeded, hnext⟩ := counter_of_step hst ha
    refine Or.inl ⟨?_, hseeded, hnext, fun v hv => ?_⟩
    · unfold minted
      cases a with
      | dispatch client request start seed => exact absurd rfl (ha _ _ _ _)
      | _ => rfl
    · exact held_of_step (EngineInv.reach hr.untraced).owned hst ha hv

-- =============================================================== the result

/-- What a Dispatch that returns Ok tells: a fresh id, which is the one it
minted. -/
theorem dispatch_fresh {a : Action T} {b : Answer T}
    (hst : s.step a = some (b, s')) (hissue : Issues id (a, b)) :
    minted s a = some id ∧ id ≠ 0
      ∧ ∃ i, (s'.engine.slots i).id = id
        ∧ (s'.engine.slots i).state = .pending
        ∧ ∀ j, j ≠ i → (s'.engine.slots j).isReusable = false →
          (s'.engine.slots j).id ≠ id := by
  obtain ⟨client, request, start, seed, he⟩ := hissue
  injection he with ha hb
  subst ha hb
  constructor
  · obtain ⟨r, hr, hb, -⟩ := dispatch_step hst
    injection hb with hstatus hid
    rcases dispatch_minted hr with
      ⟨-, hnot, -⟩ | ⟨i, id', e', hfind, hmint, -, -, hrid, -⟩
    · exact absurd hstatus.symm hnot
    · simp [minted, hfind, hmint, hid, hrid hstatus.symm]
  · rcases step_effect hst with heff | ⟨_, _, _, _, hact, -⟩
    · obtain ⟨hid, hfresh, i, client, request, -, hslots⟩ := heff.of_issues
        (⟨client, request, start, seed, rfl⟩ : Issues id _)
      refine ⟨hid, i, ?_, ?_, fun j hji hj => ?_⟩
      · rw [hslots, Function.update_self]
        rfl
      · rw [hslots, Function.update_self]
        rfl
      · rw [hslots, Function.update_of_ne hji] at hj ⊢
        exact hfresh j hj
    · cases hact

/-- An id that was minted and is unknown comes back to be known only after
a lap. -/
theorem unknown_for_a_lap {h' : List (Action T × (Answer T × Option UInt32))}
    {p : Nat} {e : Action T × (Answer T × Option UInt32)}
    (hr : (mintMachine T).Reach h s) (hp : h[p]? = some e)
    (he : e.2.2 = some id)
    (hunknown : s.engine.findLiveSlotLocked id = none)
    (hrun : (mintMachine T).Run s h' s')
    (hknown : s'.engine.findLiveSlotLocked id ≠ none) :
    2 ^ 32 - 9
      ≤ ((mintedIds ((h ++ h').drop (p + 1))).toFinset.erase id).card := by
  have hi := EngineInv.reach hr.untraced
  -- to be known again, the id was issued on the way
  obtain ⟨e', he', hissue⟩ : ∃ e' ∈ h', Issues id (Machine.plain e') := by
    by_contra hno
    push Not at hno
    obtain ⟨-, hle, -⟩ := hi.phase_run hrun.untraced id (by
      intro e he
      obtain ⟨e', he', rfl⟩ := List.mem_map.mp he
      exact hno e' he')
    have hgone : s.engine.phase id = .gone := by
      unfold AsyncEngine.phase
      rw [hunknown]
    have hnot : s'.engine.phase id ≠ .gone := by
      unfold AsyncEngine.phase
      cases hfind : s'.engine.findLiveSlotLocked id with
      | none => exact absurd hfind hknown
      | some i =>
          dsimp only
          split <;> simp
    rw [hgone] at hle
    cases hp : s'.engine.phase id with
    | gone => exact hnot hp
    | waiting | ready =>
        rw [hp] at hle
        exact absurd hle (by decide)
  obtain ⟨a, b, m⟩ := e'
  obtain ⟨q, hq⟩ := List.mem_iff_getElem?.mp he'
  obtain ⟨s₁, s₂, -, htraced, -⟩ := hrun.at hq
  obtain ⟨hst, rfl⟩ := Machine.tracing_step.mp htraced
  have hq : (h ++ h')[h.length + q]? = some (a, b, minted s₁ a) := by
    rw [List.getElem?_append_right (Nat.le_add_right ..),
      Nat.add_sub_cancel_left]
    exact hq
  have hlt := pos_lt hp
  have hlate := mintsFrom_engine.late (hr.run hrun)
    (by omega : p < h.length + q)
    (by rwa [List.getElem?_append_left hlt]) hq he
    (dispatch_fresh hst hissue).1
  refine Nat.le_trans hlate (Finset.card_le_card ?_)
  refine Finset.erase_subset_erase _ fun v hv => ?_
  rw [List.mem_toFinset] at hv ⊢
  exact ((List.take_sublist _ _).filterMap _).subset hv

/-- Request ids are fresh. A Dispatch that returns Ok has minted its id,
which is nonzero and the id of no other slot in use; nine rounds of the
minting loop are enough from any counter; between two mints of one id at
least 2^32 - 9 others are minted; and so an id that was minted and is
unknown stays so for a lap. -/
theorem request_ids_fresh (hr : (mintMachine T).Reach h s) :
    (∀ e id, h.getLast? = some e → Issues id (Machine.plain e) →
      e.2.2 = some id ∧ id ≠ 0
        ∧ ∃ i, (s.engine.slots i).id = id
          ∧ (s.engine.slots i).state = .pending
          ∧ ∀ j, j ≠ i → (s.engine.slots j).isReusable = false →
            (s.engine.slots j).id ≠ id)
      ∧ (∀ i next, s.engine.findSlotForDispatchLocked = some i →
        ∃ r, mintLoop (s.engine.freedAt i).isIdLiveLocked 9 next = some r
          ∧ mintLoop (s.engine.freedAt i).isIdLiveLocked (2 ^ 32) next
            = some r)
      ∧ (∀ (p q : Nat) e e' id, p < q → h[p]? = some e → h[q]? = some e' →
        e.2.2 = some id → e'.2.2 = some id →
        2 ^ 32 - 9 ≤ ((mintedIds (between h p q)).toFinset.erase id).card)
      ∧ ∀ (p : Nat) e id h' s', h[p]? = some e → e.2.2 = some id →
        s.engine.findLiveSlotLocked id = none →
        (mintMachine T).Run s h' s' →
        s'.engine.findLiveSlotLocked id ≠ none →
        2 ^ 32 - 9
          ≤ ((mintedIds ((h ++ h').drop (p + 1))).toFinset.erase
            id).card := by
  refine ⟨fun e id hlast hissue => ?_, fun i next hi => mint_within hi next,
    fun p q e e' id hpq hp hq he he' =>
      mintsFrom_engine.late hr hpq hp hq he he',
    fun p e id h' s' hp he hunknown hrun hknown =>
      unknown_for_a_lap hr hp he hunknown hrun hknown⟩
  rw [List.getLast?_eq_getElem?] at hlast
  obtain ⟨a, b, m⟩ := e
  obtain ⟨s₁, s₂, -, htraced, hrun⟩ := hr.at hlast
  obtain ⟨hst, rfl⟩ := Machine.tracing_step.mp htraced
  have hlt := pos_lt hlast
  rw [List.drop_eq_nil_of_le (by omega)] at hrun
  obtain rfl := hrun.nil_eq
  exact dispatch_fresh hst hissue

/-- Two requests across the counter's wrap. -/
def wrapped : List (Action Unit) :=
  [.dispatch ⟨()⟩ { url := [104] } ⟨true, true⟩ 4294967295,
    .dispatch ⟨()⟩ { url := [104] } ⟨true, true⟩ 0]

theorem wrapped_runs :
    ((mintMachine Unit).exec {} wrapped).isSome = true := by
  decide

theorem request_ids_fresh_wrapped :
    ∃ i, ((((mintMachine Unit).exec {} wrapped).get
        wrapped_runs).2.engine.slots i).id = 1
      ∧ ∀ j, j ≠ i → ((((mintMachine Unit).exec {} wrapped).get
          wrapped_runs).2.engine.slots j).isReusable = false →
        ((((mintMachine Unit).exec {} wrapped).get
          wrapped_runs).2.engine.slots j).id ≠ 1 := by
  obtain ⟨-, -, i, hid, -, hother⟩ :=
    (request_ids_fresh (.of_exec rfl wrapped_runs)).1
      (.dispatch ⟨()⟩ { url := [104] } ⟨true, true⟩ 0,
        .dispatched .ok 1, some 1) 1 (by decide)
      ⟨_, _, _, _, rfl⟩
  exact ⟨i, hid, hother⟩

end RestifyCapl.Http
