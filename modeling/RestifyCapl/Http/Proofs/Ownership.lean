/-
Who holds which slot. A worker keeps a raw pointer to its slot while the
mutex is released; `Owned` says that these pointers and the Running or
Abandoned slots are in bijection at every moment, and `DistinctIds` that
no two slots in use share an id. Both are invariants of every
interleaving.

The preservation proofs go by what an effect does to two functions: the
slot each worker holds (`slotOf`) and the state of each slot. Most
effects move neither (`Owned.frame`); a claim adds one pair
(`Owned.claim`), and the relock of the worker itself removes it
(`Owned.release`).
-/
import RestifyCapl.Http.Proofs.Effect

namespace RestifyCapl.Http

open Lib
open AsyncEngine

variable {T : Type}

-- ========================================================= held pointers

/-- The slot worker `w` holds a pointer to. -/
def System.slotOf (s : System T) (w : Nat) :
    Option (Fin kAsyncRequestSlotCount) :=
  s.workers[w]?.bind Worker.slot?

/-- Pointers and busy slots are in bijection. -/
structure Owned (s : System T) : Prop where
  busy : ∀ w i, s.slotOf w = some i → (s.engine.slots i).isBusy = true
  owner : ∀ i, (s.engine.slots i).isBusy = true → ∃ w, s.slotOf w = some i
  unique : ∀ w w' i, s.slotOf w = some i → s.slotOf w' = some i → w = w'

/-- Slots in use carry distinct, nonzero ids. -/
structure DistinctIds (s : System T) : Prop where
  nonzero : ∀ i, (s.engine.slots i).isReusable = false →
    (s.engine.slots i).id ≠ 0
  distinct : ∀ i j, (s.engine.slots i).isReusable = false →
    (s.engine.slots j).isReusable = false →
    (s.engine.slots i).id = (s.engine.slots j).id → i = j

theorem slotOf_set {s s' : System T} {w : Nat} {pc pc' : Worker T}
    (hw : s.workers[w]? = some pc)
    (hset : s'.workers = s.workers.set w pc') (w' : Nat) :
    s'.slotOf w' = if w' = w then pc'.slot? else s.slotOf w' := by
  have hlt := (List.getElem?_eq_some_iff.mp hw).1
  unfold System.slotOf
  rw [hset, List.getElem?_set]
  by_cases hww : w = w'
  · subst hww
    simp [hlt]
  · rw [if_neg hww, if_neg fun h => hww h.symm]

theorem slotOf_of_get {s : System T} {w : Nat} {pc : Worker T}
    (hw : s.workers[w]? = some pc) : s.slotOf w = pc.slot? := by
  simp [System.slotOf, hw]

/-- A worker after one worker was set: it is that worker, or it is where
it was. -/
theorem worker_of_set {s s' : System T} {w₀ w : Nat} {pc pc' : Worker T}
    (hset : s'.workers = s.workers.set w₀ pc')
    (hw : s'.workers[w]? = some pc) :
    (w₀ = w ∧ pc' = pc) ∨ s.workers[w]? = some pc := by
  rw [hset, List.getElem?_set] at hw
  split at hw
  · split at hw
    · exact Or.inl ⟨by assumption, Option.some.inj hw⟩
    · cases hw
  · exact Or.inr hw

theorem slot?_notify (pc : Worker T) : pc.notify.slot? = pc.slot? := by
  cases pc <;> rfl

/-- A broadcast that comes without a new thread. -/
theorem broadcast_only {s s' : System T}
    (h : s'.workers = notifyWorkers s.workers) :
    s'.workers = notifyWorkers s.workers
      ++ if (false : Bool) then [.started] else [] := by
  simpa using h

theorem slotOf_notify {s s' : System T} {started : Bool}
    (h : s'.workers = notifyWorkers s.workers
      ++ if started then [.started] else []) (w : Nat) :
    s'.slotOf w = s.slotOf w := by
  unfold System.slotOf
  rw [h, notifyWorkers]
  by_cases hw : w < s.workers.length
  · rw [List.getElem?_append_left (by simpa using hw), List.getElem?_map]
    cases s.workers[w]? with
    | none => rfl
    | some pc => exact slot?_notify pc
  · rw [List.getElem?_append_right (by simpa using hw),
      List.getElem?_eq_none (Nat.le_of_not_lt hw)]
    cases started with
    | false => simp
    | true =>
        simp only [if_true, Option.bind_none, List.getElem?_singleton]
        split <;> rfl

theorem slotOf_same {s s' : System T} (h : s'.workers = s.workers)
    (w : Nat) : s'.slotOf w = s.slotOf w := by
  unfold System.slotOf
  rw [h]

/-- Replacing a worker's position by one that holds the same pointer
moves nothing. -/
theorem slotOf_set_same {s s' : System T} {w : Nat} {pc pc' : Worker T}
    (hw : s.workers[w]? = some pc)
    (hset : s'.workers = s.workers.set w pc')
    (hslot : pc'.slot? = pc.slot?) (w' : Nat) :
    s'.slotOf w' = s.slotOf w' := by
  rw [slotOf_set hw hset]
  split
  · rename_i hww
    subst hww
    rw [hslot, slotOf_of_get hw]
  · rfl

-- ====================================================== ownership's rules

/-- Busy and reusable exclude each other. -/
theorem Slot.reusable_of_busy {s : Slot T} (h : s.isBusy = true) :
    s.isReusable = false := by
  unfold Slot.isBusy at h
  unfold Slot.isReusable
  cases hs : s.state <;> simp [hs] at h ⊢

theorem Slot.reusable_of_live {s : Slot T} (h : s.isLive = true) :
    s.isReusable = false := by
  unfold Slot.isLive at h
  unfold Slot.isReusable
  cases hs : s.state <;> simp [hs] at h ⊢

theorem Slot.reusable_of_pending {s : Slot T} (h : s.isPending = true) :
    s.isReusable = false := by
  unfold Slot.isPending at h
  unfold Slot.isReusable
  cases hs : s.state <;> simp [hs] at h ⊢

theorem Slot.busy_of_pending {s : Slot T} (h : s.isPending = true) :
    s.isBusy = false := by
  unfold Slot.isPending at h
  unfold Slot.isBusy
  cases hs : s.state <;> simp [hs] at h ⊢

/-- A table write that keeps the written slot's busyness keeps all. -/
theorem busy_update {t : Fin kAsyncRequestSlotCount → Slot T} {i}
    {a : Slot T} (h : a.isBusy = (t i).isBusy) (j) :
    (Function.update t i a j).isBusy = (t j).isBusy := by
  by_cases hj : j = i
  · subst hj
    rw [Function.update_self, h]
  · rw [Function.update_of_ne hj]

theorem Owned.frame {s s' : System T} (ho : Owned s)
    (hslot : ∀ w, s'.slotOf w = s.slotOf w)
    (hbusy : ∀ i, (s'.engine.slots i).isBusy = (s.engine.slots i).isBusy) :
    Owned s' := by
  refine ⟨?_, ?_, ?_⟩
  · intro w i hw
    rw [hbusy]
    exact ho.busy w i (hslot w ▸ hw)
  · intro i hi
    rw [hbusy] at hi
    obtain ⟨w, hw⟩ := ho.owner i hi
    exact ⟨w, (hslot w).trans hw⟩
  · intro w w' i hw hw'
    exact ho.unique w w' i (hslot w ▸ hw) (hslot w' ▸ hw')

/-- A worker that held nothing claims a slot nobody held. -/
theorem Owned.claim {s s' : System T} {w : Nat} {i} (ho : Owned s)
    (hbefore : s.slotOf w = none)
    (hfree : (s.engine.slots i).isBusy = false)
    (hslot : ∀ w', s'.slotOf w' = if w' = w then some i else s.slotOf w')
    (hbusy : ∀ j, (s'.engine.slots j).isBusy
      = if j = i then true else (s.engine.slots j).isBusy) :
    Owned s' := by
  have hnone : ∀ w', s.slotOf w' ≠ some i := by
    intro w' hw'
    rw [ho.busy w' i hw'] at hfree
    cases hfree
  refine ⟨?_, ?_, ?_⟩
  · intro w' j hw'
    rw [hslot] at hw'
    rw [hbusy]
    split at hw'
    · rw [Option.some.injEq] at hw'
      simp [hw']
    · split
      · rfl
      · exact ho.busy w' j hw'
  · intro j hj
    rw [hbusy] at hj
    by_cases hji : j = i
    · subst hji
      exact ⟨w, by simp [hslot]⟩
    · rw [if_neg hji] at hj
      obtain ⟨w', hw'⟩ := ho.owner j hj
      refine ⟨w', ?_⟩
      rw [hslot, if_neg]
      · exact hw'
      · intro heq
        subst heq
        rw [hbefore] at hw'
        cases hw'
  · intro w₁ w₂ j h₁ h₂
    rw [hslot] at h₁ h₂
    split at h₁ <;> split at h₂
    · omega
    · rw [Option.some.injEq] at h₁
      subst h₁
      exact absurd h₂ (hnone w₂)
    · rw [Option.some.injEq] at h₂
      subst h₂
      exact absurd h₁ (hnone w₁)
    · exact ho.unique w₁ w₂ j h₁ h₂

/-- A worker gives back the slot it held, which is busy no longer. -/
theorem Owned.release {s s' : System T} {w : Nat} {i} (ho : Owned s)
    (hbefore : s.slotOf w = some i)
    (hslot : ∀ w', s'.slotOf w' = if w' = w then none else s.slotOf w')
    (hbusy : ∀ j, (s'.engine.slots j).isBusy
      = if j = i then false else (s.engine.slots j).isBusy) :
    Owned s' := by
  refine ⟨?_, ?_, ?_⟩
  · intro w' j hw'
    rw [hslot] at hw'
    split at hw'
    · cases hw'
    · rename_i hne
      rw [hbusy]
      split
      · rename_i hji
        subst hji
        exact absurd (ho.unique w' w j hw' hbefore) hne
      · exact ho.busy w' j hw'
  · intro j hj
    rw [hbusy] at hj
    split at hj
    · cases hj
    · rename_i hne
      obtain ⟨w', hw'⟩ := ho.owner j hj
      refine ⟨w', ?_⟩
      rw [hslot, if_neg]
      · exact hw'
      · intro heq
        subst heq
        rw [hbefore, Option.some.injEq] at hw'
        exact hne hw'.symm
  · intro w₁ w₂ j h₁ h₂
    rw [hslot] at h₁ h₂
    split at h₁
    · cases h₁
    · split at h₂
      · cases h₂
      · exact ho.unique w₁ w₂ j h₁ h₂

-- ===================================================== ownership preserved

theorem discardAllSlot_busy (s : Slot T) :
    (discardAllSlot s).isBusy = s.isBusy := by
  unfold discardAllSlot Slot.isBusy
  cases h : s.state <;> simp [h] <;> rfl

theorem Owned.effect {s s' : System T} {e : Action T × Answer T}
    (ho : Owned s) (heff : Effect s e s') : Owned s' := by
  cases heff with
  | quiet he hslots hworkers hcounts =>
      exact ho.frame (slotOf_same hworkers) fun i => by rw [hslots]
  | issued i id client request start seed started hi hid hfresh hslots
      hworkers hidle hlive hrule =>
      refine ho.frame (slotOf_notify hworkers) fun j => ?_
      rw [hslots]
      refine busy_update ?_ j
      cases hb : (s.engine.slots i).isBusy with
      | false => rfl
      | true => rw [Slot.reusable_of_busy hb] at hi; cases hi
  | unissued he i hi hslots hworkers hcounts =>
      refine ho.frame (slotOf_same hworkers) fun j => ?_
      rw [hslots]
      refine busy_update ?_ j
      cases hb : (s.engine.slots i).isBusy with
      | false => rfl
      | true => rw [Slot.reusable_of_busy hb] at hi; cases hi
  | consumed i hi hrun he hslots hworkers hcounts =>
      refine ho.frame (slotOf_same hworkers) fun j => ?_
      rw [hslots]
      refine busy_update ?_ j
      unfold Slot.isBusy
      unfold Slot.isLive at hi
      cases hs : (s.engine.slots i).state <;> simp [hs] at hi hrun ⊢ <;> rfl
  | abandoned i hi hslots hworkers hcounts =>
      refine ho.frame (slotOf_same hworkers) fun j => ?_
      rw [hslots]
      exact busy_update (by simp [Slot.isBusy, hi]) j
  | cleared n hslots hworkers hcounts =>
      refine ho.frame (slotOf_notify (broadcast_only hworkers))
        fun j => ?_
      rw [hslots]
      exact discardAllSlot_busy _
  | claims he w pc i hw hpc hi hslots hworkers hidle hlive =>
      have hnone : s.slotOf w = none := by
        rw [slotOf_of_get hw]
        rcases hpc with rfl | hpc
        · rfl
        · cases pc <;> first | rfl | cases hpc
      refine ho.claim (i := i) hnone (by simp [Slot.isBusy, hi])
        (slotOf_set hw hworkers) fun j => ?_
      rw [hslots]
      by_cases hj : j = i
      · subst hj
        simp [Slot.isBusy]
      · simp [hj]
  | idles he w g hw hnone hslots hworkers hidle hlive =>
      exact ho.frame (slotOf_set_same hw hworkers rfl)
        fun i => by rw [hslots]
  | rewaits he w g n hw hnone hslots hworkers hcounts =>
      exact ho.frame (slotOf_set_same hw hworkers rfl)
        fun i => by rw [hslots]
  | leaves w timeout g n hw hnone hslots hworkers hidle hlive =>
      exact ho.frame (slotOf_set_same hw hworkers rfl)
        fun i => by rw [hslots]
  | calls w i client hw hclient hslots hworkers hcounts =>
      exact ho.frame (slotOf_set_same hw hworkers rfl)
        fun i => by rw [hslots]
  | observes he w call saw saw' hw hslots hworkers hcounts =>
      exact ho.frame (slotOf_set_same hw hworkers rfl)
        fun i => by rw [hslots]
  | returns w call saw answer hw hslots hworkers hcounts =>
      exact ho.frame (slotOf_set_same hw hworkers rfl)
        fun i => by rw [hslots]
  | exits he w hw hslots hworkers hcounts =>
      exact ho.frame (slotOf_set_same hw hworkers rfl)
        fun i => by rw [hslots]

/-- The slot a relock writes: freed if its request was abandoned, else
complete. -/
def finishedSlot (s : Slot T) (result : Status) (response : HttpResponse) :
    Slot T :=
  if s.state = .abandoned then freedSlot s
  else { s with response := response, transportStatus := result,
                state := .complete }

theorem finished_slots (s : System T) (w : Nat) (call : PerformCall T)
    (result : Status) (response : HttpResponse) :
    (s.finished w call result response).engine.slots
      = Function.update s.engine.slots call.slot
          (finishedSlot (s.engine.slots call.slot) result response) := by
  show (s.engine.workerFinish call.slot result response).slots = _
  unfold workerFinish finishedSlot
  split <;> rfl

theorem finishedSlot_busy (s : Slot T) (result : Status)
    (response : HttpResponse) :
    (finishedSlot s result response).isBusy = false := by
  unfold finishedSlot
  split <;> rfl

theorem Owned.finished {s : System T} {w : Nat} {call : PerformCall T}
    {result : Status} {response : HttpResponse} (ho : Owned s)
    (hw : s.workers[w]? = some (.performed call result response)) :
    Owned (s.finished w call result response) := by
  refine ho.release (i := call.slot) (slotOf_of_get hw)
    (slotOf_set hw (finished_workers ..)) fun j => ?_
  rw [finished_slots]
  by_cases hj : j = call.slot
  · subst hj
    simp [finishedSlot_busy]
  · simp [hj]

-- =================================================== distinct ids preserved

/-- Slots that stay in use keep their ids, and none comes into use. -/
theorem DistinctIds.frame {s s' : System T} (hd : DistinctIds s)
    (h : ∀ i, (s'.engine.slots i).isReusable = false →
      (s.engine.slots i).isReusable = false
        ∧ (s'.engine.slots i).id = (s.engine.slots i).id) :
    DistinctIds s' := by
  refine ⟨?_, ?_⟩
  · intro i hi
    rw [(h i hi).2]
    exact hd.nonzero i (h i hi).1
  · intro i j hi hj hij
    rw [(h i hi).2, (h j hj).2] at hij
    exact hd.distinct i j (h i hi).1 (h j hj).1 hij

/-- The frame at a table write. -/
theorem reusable_update {t : Fin kAsyncRequestSlotCount → Slot T} {i}
    {a : Slot T}
    (h : a.isReusable = false → (t i).isReusable = false ∧ a.id = (t i).id)
    (j) (hj : (Function.update t i a j).isReusable = false) :
    (t j).isReusable = false ∧ (Function.update t i a j).id = (t j).id := by
  by_cases hji : j = i
  · subst hji
    rw [Function.update_self] at hj ⊢
    exact h hj
  · rw [Function.update_of_ne hji] at hj ⊢
    exact ⟨hj, rfl⟩

theorem discardAllSlot_reusable (s : Slot T)
    (h : (discardAllSlot s).isReusable = false) :
    s.isReusable = false ∧ (discardAllSlot s).id = s.id := by
  unfold discardAllSlot Slot.isReusable at *
  cases hs : s.state <;> simp [hs] at h ⊢

/-- A slot in use after an effect that does not issue its id was in use
before it, under the same id. -/
theorem Effect.keptId {s s' : System T} {e : Action T × Answer T}
    (heff : Effect s e s') (j)
    (hissue : ¬ Issues (s'.engine.slots j).id e)
    (hj : (s'.engine.slots j).isReusable = false) :
    (s.engine.slots j).isReusable = false
      ∧ (s'.engine.slots j).id = (s.engine.slots j).id := by
  cases heff with
  | issued i id client request start seed _ _ _ _ hslots =>
      by_cases hji : j = i
      · subst hji
        refine absurd ⟨client, request, start, seed, ?_⟩ hissue
        rw [hslots, Function.update_self]
        rfl
      · rw [hslots, Function.update_of_ne hji] at hj ⊢
        exact ⟨hj, rfl⟩
  | unissued _ i _ hslots =>
      rw [hslots] at hj ⊢
      exact reusable_update (fun h => by simp [Slot.isReusable, freedSlot]
        at h) j hj
  | consumed i _ _ _ hslots =>
      rw [hslots] at hj ⊢
      exact reusable_update (fun h => by simp [Slot.isReusable] at h) j hj
  | abandoned i hi hslots | claims _ _ _ i _ _ hi hslots =>
      rw [hslots] at hj ⊢
      refine reusable_update (fun _ => ?_) j hj
      exact ⟨by simp [Slot.isReusable, hi], rfl⟩
  | cleared n hslots =>
      rw [hslots] at hj ⊢
      exact discardAllSlot_reusable _ hj
  | quiet _ hslots | idles _ _ _ _ _ hslots | rewaits _ _ _ _ _ _ hslots
  | leaves _ _ _ _ _ _ hslots | calls _ _ _ _ _ hslots
  | observes _ _ _ _ _ _ hslots | returns _ _ _ _ _ hslots
  | exits _ _ _ hslots =>
      rw [hslots] at hj ⊢
      exact ⟨hj, rfl⟩

/-- So does the relock's write. -/
theorem finished_keptId {s : System T} {w : Nat} {call : PerformCall T}
    {result : Status} {response : HttpResponse} (ho : Owned s)
    (hw : s.workers[w]? = some (.performed call result response)) (j)
    (hj : ((s.finished w call result response).engine.slots j).isReusable
      = false) :
    (s.engine.slots j).isReusable = false
      ∧ ((s.finished w call result response).engine.slots j).id
        = (s.engine.slots j).id := by
  rw [finished_slots] at hj ⊢
  refine reusable_update (fun h => ?_) j hj
  refine ⟨Slot.reusable_of_busy (ho.busy w _ (slotOf_of_get hw)), ?_⟩
  unfold finishedSlot at h ⊢
  split at h
  · simp [Slot.isReusable, freedSlot] at h
  · rename_i hne
    rw [if_neg hne]

/-- What an effect that issues an id does. -/
theorem Effect.of_issues {s s' : System T} {e : Action T × Answer T}
    {id : UInt32} (heff : Effect s e s') (hissue : Issues id e) :
    id ≠ 0
      ∧ (∀ j, (s.engine.slots j).isReusable = false →
        (s.engine.slots j).id ≠ id)
      ∧ ∃ i client request,
        (s.engine.slots i).isReusable = true
        ∧ s'.engine.slots = Function.update s.engine.slots i
          (dispatchedSlot (s.engine.slots i) i id client request) := by
  cases heff with
  | issued i id' client request start seed started hi hid hfresh hslots =>
      obtain ⟨_, _, _, _, he⟩ := hissue
      injection he with _ hb
      injection hb with _ hb
      subst hb
      exact ⟨hid, hfresh, i, client, request, hi, hslots⟩
  | quiet he | unissued he | claims he | idles he | rewaits he
  | observes he | exits he => exact absurd hissue (he id).1
  | consumed _ _ _ he =>
      rcases he with ⟨_, rfl, -⟩ | rfl <;>
        exact absurd hissue (not_issues (by simp))
  | abandoned | cleared | leaves | calls | returns =>
      exact absurd hissue (not_issues (by simp))

theorem DistinctIds.effect {s s' : System T} {e : Action T × Answer T}
    (hd : DistinctIds s) (heff : Effect s e s') : DistinctIds s' := by
  by_cases hissue : ∃ id, Issues id e
  · obtain ⟨id, hissue⟩ := hissue
    obtain ⟨hid, hfresh, i, client, request, -, hslots⟩ :=
      heff.of_issues hissue
    have hself : (s'.engine.slots i).id = id := by
      rw [hslots, Function.update_self]
      rfl
    have hother : ∀ j, j ≠ i → s'.engine.slots j = s.engine.slots j :=
      fun j hj => by rw [hslots, Function.update_of_ne hj]
    refine ⟨?_, ?_⟩
    · intro j hj
      by_cases hji : j = i
      · rw [hji, hself]
        exact hid
      · rw [hother j hji] at hj ⊢
        exact hd.nonzero j hj
    · intro j k hj hk hjk
      by_cases hji : j = i <;> by_cases hki : k = i
      · rw [hji, hki]
      · rw [hji, hself, hother k hki] at hjk
        rw [hother k hki] at hk
        exact absurd hjk.symm (hfresh k hk)
      · rw [hki, hself, hother j hji] at hjk
        rw [hother j hji] at hj
        exact absurd hjk (hfresh j hj)
      · rw [hother j hji] at hj hjk
        rw [hother k hki] at hk hjk
        exact hd.distinct j k hj hk hjk
  · exact hd.frame fun j hj =>
      heff.keptId j (fun h => hissue ⟨_, h⟩) hj

theorem DistinctIds.finished {s : System T} {w : Nat}
    {call : PerformCall T} {result : Status} {response : HttpResponse}
    (hd : DistinctIds s) (ho : Owned s)
    (hw : s.workers[w]? = some (.performed call result response)) :
    DistinctIds (s.finished w call result response) :=
  hd.frame (finished_keptId ho hw)

end RestifyCapl.Http
