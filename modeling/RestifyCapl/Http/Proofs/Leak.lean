/-
Slot ownership, and no slot leak. `Owned` gives the bijection between
the busy slots and the workers that hold them; here it is followed along
runs. A worker keeps its slot, and finds in it what it claimed, until it
relocks itself; and a slot that Dispatch cannot reuse is live under an
id some Dispatch returned, or still has its worker.
-/
import RestifyCapl.Http.Proofs.Served

namespace RestifyCapl.Http

open Lib
open AsyncEngine

variable {T : Type} {h : List (Action T × Answer T)}

-- ============================================================= following

/-- A worker that holds a slot holds it after any effect. -/
theorem Effect.slotOf_kept {s s' : System T} {e : Action T × Answer T}
    (heff : Effect s e s') {w : Nat} {i} (hw : s.slotOf w = some i) :
    s'.slotOf w = some i := by
  cases heff with
  | quiet _ _ hworkers | unissued _ _ _ _ hworkers
  | consumed _ _ _ _ _ hworkers | abandoned _ _ _ hworkers =>
      rw [slotOf_same hworkers, hw]
  | issued _ _ _ _ _ _ _ _ _ _ _ hworkers =>
      rw [slotOf_notify hworkers, hw]
  | cleared _ _ hworkers =>
      rw [slotOf_notify (broadcast_only hworkers), hw]
  | claims _ w₀ pc _ hw₀ hpc _ _ hworkers =>
      rw [slotOf_set hw₀ hworkers]
      split
      · rename_i hww
        rw [hww, slotOf_of_get hw₀] at hw
        rcases hpc with rfl | hpc
        · cases hw
        · cases pc <;> cases hpc
          cases hw
      · exact hw
  | idles _ _ _ hw₀ _ _ hworkers | rewaits _ _ _ _ hw₀ _ _ hworkers
  | leaves _ _ _ _ hw₀ _ _ hworkers | calls _ _ _ hw₀ _ _ hworkers
  | observes _ _ _ _ _ hw₀ _ hworkers | returns _ _ _ _ hw₀ _ hworkers
  | exits _ _ hw₀ _ hworkers =>
      rw [slotOf_set_same hw₀ hworkers rfl, hw]

/-- One step that is not the worker's own relock leaves it its slot, and
leaves the slot its request. -/
theorem EngineInv.kept_step {s s' : System T} {a : Action T} {b : Answer T}
    (hi : EngineInv s) (hst : s.step a = some (b, s')) {w : Nat} {i}
    (hw : s.slotOf w = some i) (ha : a ≠ .relock w) :
    s'.slotOf w = some i
      ∧ SameRequest (s.engine.slots i) (s'.engine.slots i) := by
  have hbusy := hi.owned.busy w i hw
  rcases step_effect hst with
    heff | ⟨w₀, call, result, response, rfl, hw₀, heff⟩
  · exact ⟨heff.slotOf_kept hw, (heff.held i hbusy).2⟩
  · -- another worker's relock writes another slot
    have hne : w ≠ w₀ := by
      intro heq
      subst heq
      exact ha rfl
    have hslot : i ≠ call.slot := by
      intro heq
      subst heq
      exact hne (hi.owned.unique w w₀ _ hw (slotOf_of_get hw₀))
    have hmid : (s.finished w₀ call result response).slotOf w = some i := by
      rw [slotOf_set hw₀ (finished_workers ..), if_neg hne, hw]
    have hsame : (s.finished w₀ call result response).engine.slots i
        = s.engine.slots i := finished_other hslot
    refine ⟨heff.slotOf_kept hmid, ?_⟩
    rw [← hsame]
    exact (heff.held i (by rwa [hsame])).2

theorem SameRequest.trans {a b c : Slot T} (h : SameRequest a b)
    (h' : SameRequest b c) : SameRequest a c :=
  ⟨h'.1.trans h.1, h'.2.1.trans h.2.1, h'.2.2.trans h.2.2⟩

/-- Until it relocks, a worker keeps its slot and what is in it. -/
theorem EngineInv.kept_run {s s' : System T} (hi : EngineInv s)
    (hrun : (asyncMachine T).Run s h s') {w : Nat} {i}
    (hw : s.slotOf w = some i) (hno : ∀ e ∈ h, e.1 ≠ .relock w) :
    EngineInv s' ∧ s'.slotOf w = some i
      ∧ SameRequest (s.engine.slots i) (s'.engine.slots i) := by
  induction hrun with
  | nil => exact ⟨hi, hw, .refl _⟩
  | snoc hrun hst ih =>
      obtain ⟨hi₁, hw₁, hsame₁⟩ := ih fun e he =>
        hno e (List.mem_append_left _ he)
      obtain ⟨hw₂, hsame₂⟩ := hi₁.kept_step hst hw₁
        (hno _ (List.mem_append_right _ (List.mem_singleton.mpr rfl)))
      exact ⟨hi₁.step hst, hw₂, hsame₁.trans hsame₂⟩

-- ============================================================= the bijection

/-- The slot a busy worker holds. -/
def System.heldSlot {s : System T} (ho : Owned s)
    (w : { w : Fin s.workers.length // s.workers[w].isBusy = true }) :
    { i // (s.engine.slots i).isBusy = true } :=
  ⟨s.workers[w.1].slot?.get w.2,
    ho.busy w.1 _ (by
      rw [slotOf_of_get (List.getElem?_eq_getElem w.1.2)]
      exact (Option.some_get w.2).symm)⟩

theorem heldSlot_slotOf {s : System T} (ho : Owned s)
    (w : { w : Fin s.workers.length // s.workers[w].isBusy = true }) :
    s.slotOf w.1 = some (System.heldSlot ho w).1 := by
  rw [slotOf_of_get (List.getElem?_eq_getElem w.1.2)]
  exact (Option.some_get w.2).symm

theorem heldSlot_bijective {s : System T} (ho : Owned s) :
    Function.Bijective (System.heldSlot ho) := by
  constructor
  · intro w w' hww
    have h₁ := heldSlot_slotOf ho w
    have h₂ := heldSlot_slotOf ho w'
    rw [← hww] at h₂
    exact Subtype.ext (Fin.ext (ho.unique _ _ _ h₁ h₂))
  · intro hi
    obtain ⟨i, hi⟩ := hi
    obtain ⟨w, hw⟩ := ho.owner i hi
    obtain ⟨pc, hpc, hslot⟩ := Option.bind_eq_some_iff.mp hw
    obtain ⟨hlt, hget⟩ := List.getElem?_eq_some_iff.mp hpc
    have hbusy : s.workers[w].isBusy = true := by
      unfold Worker.isBusy
      rw [hget, hslot]
      rfl
    refine ⟨⟨⟨w, hlt⟩, hbusy⟩, Subtype.ext (Option.some.inj ?_)⟩
    rw [← heldSlot_slotOf]
    exact hw

-- ============================================================== the result

/-- Slot ownership and no slot leak. The busy workers and the Running or
Abandoned slots are in bijection. In any run without a relock of its
worker such a slot stays busy, stays its worker's, and keeps its id,
client and request, and Dispatch never picks it. So a slot that Dispatch
cannot reuse is live under an id some Dispatch returned, or is Abandoned
and still held. -/
theorem slot_ownership {s : System T} (hr : AsyncReach T h s) :
    (∃ f : { w : Fin s.workers.length // s.workers[w].isBusy = true } →
        { i // (s.engine.slots i).isBusy = true },
      Function.Bijective f
        ∧ ∀ w, s.workers[w.1].slot? = some (f w).1)
      ∧ (∀ w i, s.slotOf w = some i → ∀ h' s',
        (asyncMachine T).Run s h' s' → (∀ e ∈ h', e.1 ≠ .relock w) →
        s'.slotOf w = some i
          ∧ (s'.engine.slots i).isBusy = true
          ∧ (s'.engine.slots i).id = (s.engine.slots i).id
          ∧ (s'.engine.slots i).client = (s.engine.slots i).client
          ∧ (s'.engine.slots i).request = (s.engine.slots i).request
          ∧ s'.engine.findSlotForDispatchLocked ≠ some i)
      ∧ ∀ i, (s.engine.slots i).isReusable = false →
        ((s.engine.slots i).isLive = true
          ∧ ∃ (k : Nat) (e : Action T × Answer T),
            h[k]? = some e ∧ Issues (s.engine.slots i).id e)
        ∨ ((s.engine.slots i).state = .abandoned
          ∧ ∃ w, s.slotOf w = some i) := by
  have hi := EngineInv.reach hr
  have hv := Served.reach hr
  refine ⟨⟨System.heldSlot hi.owned, heldSlot_bijective hi.owned, ?_⟩, ?_, ?_⟩
  · intro w
    rw [← heldSlot_slotOf, slotOf_of_get (List.getElem?_eq_getElem w.1.2)]
    rfl
  · intro w i hw h' s' hrun hno
    obtain ⟨hi', hw', hid, hclient, hrequest⟩ := hi.kept_run hrun hw hno
    have hbusy := hi'.owned.busy w i hw'
    refine ⟨hw', hbusy, hid, hclient, hrequest, fun hfind => ?_⟩
    have hr : (s'.engine.slots i).isReusable = true := findFirst_some hfind
    rw [Slot.reusable_of_busy hbusy] at hr
    cases hr
  · intro i huse
    obtain ⟨d, client, request, start, seed, hl, -⟩ := hv.carries i huse
    by_cases hab : (s.engine.slots i).state = .abandoned
    · refine Or.inr ⟨hab, hi.owned.owner i ?_⟩
      simp [Slot.isBusy, hab]
    · refine Or.inl ⟨?_, d, _, hl.1, hl.2.1⟩
      unfold Slot.isReusable at huse
      unfold Slot.isLive
      cases hs : (s.engine.slots i).state <;> simp [hs] at huse hab ⊢

/-- A request discarded while its worker is inside `Perform`. -/
def abandon : List (Action Unit) :=
  [.dispatch ⟨()⟩ { url := [104] } ⟨true, true⟩ 7, .firstLock 0, .perform 0,
    .discard 7]

theorem abandon_runs :
    ((asyncMachine Unit).exec {} abandon).isSome = true := by
  decide

/-- Its slot outlives a DiscardAll, and a Dispatch does not pick it. -/
theorem slot_ownership_abandon :
    ((((asyncMachine Unit).exec {} abandon).get
        abandon_runs).2.engine.slots ⟨0, by decide⟩).state = .abandoned
      ∧ (((asyncMachine Unit).exec {} abandon).get
          abandon_runs).2.engine.discardAll.2.findSlotForDispatchLocked
        ≠ some ⟨0, by decide⟩ := by
  refine ⟨by decide, ?_⟩
  have hown := slot_ownership (.of_exec rfl abandon_runs)
  have hheld : (((asyncMachine Unit).exec {} abandon).get
      abandon_runs).2.slotOf 0 = some ⟨0, by decide⟩ := by
    decide
  have hrun := Machine.Run.cons (M := asyncMachine Unit)
    (s := (((asyncMachine Unit).exec {} abandon).get abandon_runs).2)
    (a := .discardAll) rfl (.nil _)
  exact (hown.2.1 0 _ hheld _ _ hrun (by simp)).2.2.2.2.2

end RestifyCapl.Http
