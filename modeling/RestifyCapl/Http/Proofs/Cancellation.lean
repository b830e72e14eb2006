/-
Cancellation stays inside the engine. A slot's cancel flag is set exactly
while the slot is Abandoned, so a worker that sees its flag set works for
a request nobody can read any more, and goes on doing so until its own
relock frees the slot. What such a worker brings back is dropped.

The transport is outside the model. `CancelsOnlyIfAsked` is what
`XferInfoCallback` and `MapCurlCode` make of it: RequestCancelled comes
back only from a call during which the flag was seen set.
-/
import RestifyCapl.Http.Proofs.Integrity

namespace RestifyCapl.Http

open Lib
open AsyncEngine

variable {T : Type} {h : List (Action T × Answer T)}

-- ============================================================== the flag

/-- The flag is the Abandoned state, seen without the mutex. -/
def Slot.FlagRight (a : Slot T) : Prop :=
  a.cancelFlag = true ↔ a.state = .abandoned

theorem freedSlot_flag (a : Slot T) : (freedSlot a).FlagRight := by
  simp [Slot.FlagRight, freedSlot, freeSlotContentsLocked]

theorem discardAllSlot_flag {a : Slot T} (ha : a.FlagRight) :
    (discardAllSlot a).FlagRight := by
  unfold Slot.FlagRight at ha ⊢
  unfold discardAllSlot
  cases hs : a.state <;>
    simp [hs, freeSlotContentsLocked] at ha ⊢ <;> exact ha

theorem finishedSlot_flag {a : Slot T} (ha : a.FlagRight) (result : Status)
    (response : HttpResponse) :
    (finishedSlot a result response).FlagRight := by
  unfold finishedSlot
  split
  case isTrue => exact freedSlot_flag a
  case isFalse hne => simpa [Slot.FlagRight, hne] using ha

/-- Writing one right slot keeps a right table. -/
theorem flags_update {t : Fin kAsyncRequestSlotCount → Slot T} {i}
    {a : Slot T} (ht : ∀ j, (t j).FlagRight) (ha : a.FlagRight) (j) :
    (Function.update t i a j).FlagRight := by
  by_cases hji : j = i
  · subst hji
    rwa [Function.update_self]
  · rw [Function.update_of_ne hji]
    exact ht j

/-- The flags of a system. -/
def FlagsRight (s : System T) : Prop := ∀ i, (s.engine.slots i).FlagRight

theorem FlagsRight.effect {s s' : System T} {e : Action T × Answer T}
    (hf : FlagsRight s) (heff : Effect s e s') : FlagsRight s' := by
  intro j
  cases heff with
  | issued i id client request _ _ _ _ _ _ hslots =>
      rw [hslots]
      refine flags_update hf ?_ j
      simp [Slot.FlagRight, dispatchedSlot, freeSlotContentsLocked]
  | unissued _ i _ hslots =>
      rw [hslots]
      exact flags_update hf (freedSlot_flag _) j
  | consumed i hi hrun _ hslots =>
      rw [hslots]
      refine flags_update hf ?_ j
      have hi' := hf i
      unfold Slot.FlagRight at hi' ⊢
      unfold Slot.isLive at hi
      cases hs : (s.engine.slots i).state <;> simp [hs] at hi hi' ⊢ <;>
        exact hi'
  | abandoned i _ hslots =>
      rw [hslots]
      exact flags_update hf (by simp [Slot.FlagRight]) j
  | cleared n hslots =>
      rw [hslots]
      exact discardAllSlot_flag (hf j)
  | claims _ _ _ i _ _ hi hslots =>
      rw [hslots]
      refine flags_update hf ?_ j
      simpa [Slot.FlagRight, hi] using hf i
  | quiet _ hslots | idles _ _ _ _ _ hslots | rewaits _ _ _ _ _ _ hslots
  | leaves _ _ _ _ _ _ hslots | calls _ _ _ _ _ hslots
  | observes _ _ _ _ _ _ hslots | returns _ _ _ _ _ hslots
  | exits _ _ _ hslots =>
      rw [hslots]
      exact hf j

theorem FlagsRight.finished {s : System T} {w : Nat} {call : PerformCall T}
    {result : Status} {response : HttpResponse} (hf : FlagsRight s) :
    FlagsRight (s.finished w call result response) := by
  intro j
  rw [finished_slots]
  exact flags_update hf (finishedSlot_flag (hf _) ..) j

theorem FlagsRight.reach {s : System T} (hr : AsyncReach T h s) :
    FlagsRight s := by
  refine hr.invariant (P := fun _ s => FlagsRight s) ?_ ?_
  · intro s heq
    subst heq
    intro i
    simp [Slot.FlagRight]
  · intro h s a b s' _ hf hst
    rcases step_effect hst with heff | ⟨w, call, result, response, -, -, heff⟩
    · exact hf.effect heff
    · exact hf.finished.effect heff

-- ======================================================= the transport

/-- Worker `w` has seen its cancel flag set since it last called
`Perform`. -/
def SawCancel (h : List (Action T × Answer T)) (w : Nat) : Prop :=
  ∃ j : Nat, h[j]? = some (.observeCancel w, .observed true)
    ∧ ∀ (m : Nat) e, j < m → h[m]? = some e → e.1 ≠ .perform w

/-- The transport returns RequestCancelled only from a call during which
it saw the request's cancel flag set. -/
def CancelsOnlyIfAsked (h : List (Action T × Answer T)) : Prop :=
  ∀ (k w : Nat) answer b, h[k]? = some (.performReturn w answer, b) →
    answer.1 = .requestCancelled → SawCancel (h.take k) w

/-- It holds of what came first, too. -/
theorem CancelsOnlyIfAsked.take (hc : CancelsOnlyIfAsked h) (n : Nat) :
    CancelsOnlyIfAsked (h.take n) := by
  intro k w answer b hk hcancel
  obtain ⟨hlt, hk⟩ := take_get hk
  have hsaw := hc k w answer b hk hcancel
  rwa [List.take_take, Nat.min_eq_left (Nat.le_of_lt hlt)]

theorem CancelsOnlyIfAsked.init {e : Action T × Answer T}
    (hc : CancelsOnlyIfAsked (h ++ [e])) : CancelsOnlyIfAsked h := by
  have := hc.take h.length
  rwa [List.take_left'] at this
  rfl

/-- The last event decides, where it is the worker's. -/
theorem SawCancel.of_snoc {w : Nat} {e : Action T × Answer T}
    (hs : SawCancel (h ++ [e]) w) :
    e.1 ≠ .perform w
      ∧ (SawCancel h w ∨ e = (.observeCancel w, .observed true)) := by
  obtain ⟨j, hj, hlast⟩ := hs
  rcases snoc_cases hj with ⟨hold, hlt⟩ | ⟨-, rfl⟩
  · refine ⟨hlast _ e hlt (snoc_new h e), Or.inl ⟨j, hold, ?_⟩⟩
    exact fun m e' hm hget => hlast m e' hm (snoc_old hget)
  · exact ⟨by simp, Or.inr rfl⟩

-- =========================================================== the workers

/-- An Abandoned slot stays Abandoned through every effect: only the
relock of its own worker frees it. -/
theorem Effect.abandoned_kept {s s' : System T} {e : Action T × Answer T}
    (heff : Effect s e s') {j}
    (hj : (s.engine.slots j).state = .abandoned) :
    (s'.engine.slots j).state = .abandoned := by
  have hupdate : ∀ {i} {a : Slot T},
      s'.engine.slots = Function.update s.engine.slots i a → j ≠ i →
      (s'.engine.slots j).state = .abandoned := by
    intro i a hslots hji
    rw [hslots, Function.update_of_ne hji, hj]
  cases heff with
  | issued i _ _ _ _ _ _ hi _ _ hslots | unissued _ i hi hslots =>
      refine hupdate hslots ?_
      intro heq
      subst heq
      simp [Slot.isReusable, hj] at hi
  | consumed i hi _ _ hslots =>
      refine hupdate hslots ?_
      intro heq
      subst heq
      simp [Slot.isLive, hj] at hi
  | abandoned i hi hslots | claims _ _ _ i _ _ hi hslots =>
      refine hupdate hslots ?_
      intro heq
      subst heq
      rw [hj] at hi
      cases hi
  | cleared n hslots =>
      rw [hslots]
      simp [discardAllSlot, hj]
  | quiet _ hslots | idles _ _ _ _ _ hslots | rewaits _ _ _ _ _ _ hslots
  | leaves _ _ _ _ _ _ hslots | calls _ _ _ _ _ hslots
  | observes _ _ _ _ _ _ hslots | returns _ _ _ _ _ hslots
  | exits _ _ _ hslots =>
      rw [hslots, hj]

/-- A worker inside `Perform` after an effect was inside the same call
before it, or the effect is the call. -/
theorem Effect.performing_before {s s' : System T}
    {e : Action T × Answer T} (heff : Effect s e s') {w : Nat}
    {call : PerformCall T} {saw : Bool}
    (hw : s'.workers[w]? = some (.performing call saw)) :
    e.1 = .perform w ∨ ∃ saw', s.workers[w]? = some (.performing call saw') := by
  cases heff with
  | quiet _ _ hworkers | unissued _ _ _ _ hworkers
  | consumed _ _ _ _ _ hworkers | abandoned _ _ _ hworkers =>
      exact Or.inr ⟨saw, hworkers ▸ hw⟩
  | issued _ _ _ _ _ _ _ _ _ _ _ hworkers =>
      rcases worker_of_notify hworkers hw with hfree | hold
      · cases hfree
      · exact Or.inr ⟨saw, hold⟩
  | cleared _ _ hworkers =>
      rcases worker_of_notify (broadcast_only hworkers) hw with hfree | hold
      · cases hfree
      · exact Or.inr ⟨saw, hold⟩
  | calls w₀ _ _ _ _ _ hworkers =>
      rcases worker_of_set hworkers hw with ⟨rfl, -⟩ | hold
      · exact Or.inl rfl
      · exact Or.inr ⟨saw, hold⟩
  | observes _ w₀ call₀ saw₀ _ hw₀ _ hworkers =>
      rcases worker_of_set hworkers hw with ⟨rfl, hpc⟩ | hold
      · injection hpc with hcall
        exact Or.inr ⟨saw₀, hcall ▸ hw₀⟩
      · exact Or.inr ⟨saw, hold⟩
  | claims _ _ _ _ _ _ _ _ hworkers | idles _ _ _ _ _ _ hworkers
  | rewaits _ _ _ _ _ _ _ hworkers | leaves _ _ _ _ _ _ _ hworkers
  | returns _ _ _ _ _ _ hworkers | exits _ _ _ _ hworkers =>
      rcases worker_of_set hworkers hw with ⟨-, hpc⟩ | hold
      · cases hpc
      · exact Or.inr ⟨saw, hold⟩

/-- A worker with an outcome after an effect had it before, or the effect
is its call's return. -/
theorem Effect.performed_before {s s' : System T}
    {e : Action T × Answer T} (heff : Effect s e s') {w : Nat}
    {call : PerformCall T} {result : Status} {response : HttpResponse}
    (hw : s'.workers[w]? = some (.performed call result response)) :
    s.workers[w]? = some (.performed call result response)
      ∨ ∃ saw answer, s.workers[w]? = some (.performing call saw)
        ∧ e.1 = .performReturn w answer
        ∧ result = (call.client.perform answer call.request {}).1 := by
  cases heff with
  | quiet _ _ hworkers | unissued _ _ _ _ hworkers
  | consumed _ _ _ _ _ hworkers | abandoned _ _ _ hworkers =>
      exact Or.inl (hworkers ▸ hw)
  | issued _ _ _ _ _ _ _ _ _ _ _ hworkers =>
      rcases worker_of_notify hworkers hw with hfree | hold
      · cases hfree
      · exact Or.inl hold
  | cleared _ _ hworkers =>
      rcases worker_of_notify (broadcast_only hworkers) hw with hfree | hold
      · cases hfree
      · exact Or.inl hold
  | returns w₀ call₀ saw answer hw₀ _ hworkers =>
      rcases worker_of_set hworkers hw with ⟨rfl, hpc⟩ | hold
      · injection hpc with hcall hresult
        subst hcall
        exact Or.inr ⟨saw, answer, hw₀, rfl, hresult.symm⟩
      · exact Or.inl hold
  | claims _ _ _ _ _ _ _ _ hworkers | idles _ _ _ _ _ _ hworkers
  | rewaits _ _ _ _ _ _ _ hworkers | leaves _ _ _ _ _ _ _ hworkers
  | calls _ _ _ _ _ _ hworkers | observes _ _ _ _ _ _ _ hworkers
  | exits _ _ _ _ hworkers =>
      rcases worker_of_set hworkers hw with ⟨-, hpc⟩ | hold
      · cases hpc
      · exact Or.inl hold

-- ========================================================== the invariant

/-- A worker that saw its flag works for an Abandoned slot, and so does
one that has a RequestCancelled to deliver; no Complete slot holds one. -/
structure Contained (h : List (Action T × Answer T)) (s : System T) :
    Prop where
  seen : ∀ (w : Nat) call saw, s.workers[w]? = some (.performing call saw) →
    SawCancel h w → (s.engine.slots call.slot).state = .abandoned
  brought : ∀ (w : Nat) call response,
    s.workers[w]? = some (.performed call .requestCancelled response) →
    (s.engine.slots call.slot).state = .abandoned
  complete : ∀ i, (s.engine.slots i).state = .complete →
    (s.engine.slots i).transportStatus ≠ .requestCancelled

/-- A worker that sees its flag set works for an Abandoned slot. -/
theorem observed_abandoned {s s' : System T} {w : Nat}
    {call : PerformCall T} {saw : Bool} (hf : FlagsRight s)
    (hv : Served h s) (ho : Owned s)
    (hw : s.workers[w]? = some (.performing call saw))
    (hst : s.step (.observeCancel w) = some (.observed true, s')) :
    (s.engine.slots call.slot).state = .abandoned := by
  simp only [System.step, hw] at hst
  obtain ⟨hseen, -⟩ := step_result hst
  injection hseen with hseen
  obtain ⟨⟨-, -, hrequest⟩, -⟩ := hv.performing w call saw hw
  have huse := Slot.reusable_of_busy
    (ho.busy w call.slot (slotOf_of_get hw))
  obtain ⟨_, _, request, _, _, -, -, hcarried⟩ := hv.carries call.slot huse
  rw [← hrequest, hcarried] at hseen
  -- the address of the flag is the slot's own index
  have hflag : s.engine.flagAt call.slot.val = true := hseen
  unfold AsyncEngine.flagAt at hflag
  rw [dif_pos call.slot.isLt] at hflag
  exact (hf call.slot).mp hflag

/-- What a Complete slot holds after an effect it held before. -/
theorem Effect.complete_before {s s' : System T} {e : Action T × Answer T}
    (heff : Effect s e s') {j}
    (hj : (s'.engine.slots j).state = .complete) :
    (s.engine.slots j).state = .complete
      ∧ (s'.engine.slots j).transportStatus
        = (s.engine.slots j).transportStatus := by
  have hupdate : ∀ {i} {a : Slot T},
      s'.engine.slots = Function.update s.engine.slots i a →
      a.state ≠ .complete →
      (s.engine.slots j).state = .complete
        ∧ (s'.engine.slots j).transportStatus
          = (s.engine.slots j).transportStatus := by
    intro i a hslots ha
    by_cases hji : j = i
    · subst hji
      rw [hslots, Function.update_self] at hj
      exact absurd hj ha
    · rw [hslots, Function.update_of_ne hji] at hj
      rw [hslots, Function.update_of_ne hji]
      exact ⟨hj, rfl⟩
  cases heff with
  | issued _ _ _ _ _ _ _ _ _ _ hslots | unissued _ _ _ hslots
  | consumed _ _ _ _ hslots | abandoned _ _ hslots
  | claims _ _ _ _ _ _ _ hslots =>
      exact hupdate hslots (by
        simp [dispatchedSlot, freedSlot, freeSlotContentsLocked])
  | cleared n hslots =>
      rw [hslots] at hj
      unfold discardAllSlot at hj
      cases hs : (s.engine.slots j).state <;> simp [hs] at hj
  | quiet _ hslots | idles _ _ _ _ _ hslots | rewaits _ _ _ _ _ _ hslots
  | leaves _ _ _ _ _ _ hslots | calls _ _ _ _ _ hslots
  | observes _ _ _ _ _ _ hslots | returns _ _ _ _ _ hslots
  | exits _ _ _ hslots =>
      rw [hslots] at hj ⊢
      exact ⟨hj, rfl⟩

/-- An effect keeps the invariant, if an observation it makes is one of
an Abandoned slot and a RequestCancelled it brings was asked for. -/
theorem Contained.effect {s s' : System T} {e : Action T × Answer T}
    (hc : Contained h s) (heff : Effect s e s')
    (hsees : ∀ w call saw, s.workers[w]? = some (.performing call saw) →
      e = (.observeCancel w, .observed true) →
      (s.engine.slots call.slot).state = .abandoned)
    (hasked : ∀ w answer, e.1 = .performReturn w answer →
      answer.1 = .requestCancelled → SawCancel h w) :
    Contained (h ++ [e]) s' := by
  refine ⟨?_, ?_, ?_⟩
  · intro w call saw hw hsaw
    obtain ⟨hne, hsaw⟩ := hsaw.of_snoc
    rcases heff.performing_before hw with hcall | ⟨saw', hold⟩
    · exact absurd hcall hne
    · refine heff.abandoned_kept ?_
      rcases hsaw with hsaw | hnow
      · exact hc.seen w call saw' hold hsaw
      · exact hsees w call saw' hold hnow
  · intro w call response hw
    refine heff.abandoned_kept ?_
    rcases heff.performed_before hw with
      hold | ⟨saw, answer, hold, hreturn, hresult⟩
    · exact hc.brought w call response hold
    · refine hc.seen w call saw hold (hasked w answer hreturn ?_)
      unfold HttpClient.perform at hresult
      split at hresult
      · cases hresult
      · exact hresult.symm
  · intro j hj
    obtain ⟨hold, hsame⟩ := heff.complete_before hj
    rw [hsame]
    exact hc.complete j hold

/-- The relock drops what it brought for an Abandoned slot, and so never
publishes a RequestCancelled. -/
theorem Contained.finished {s : System T} {w : Nat} {call : PerformCall T}
    {result : Status} {response : HttpResponse} (hc : Contained h s)
    (ho : Owned s)
    (hw : s.workers[w]? = some (.performed call result response)) :
    Contained h (s.finished w call result response) := by
  refine ⟨?_, ?_, ?_⟩
  · intro w' call' saw hw' hsaw
    obtain ⟨hold, hsame⟩ := ho.kept_finished hw hw' rfl
    rw [hsame]
    exact hc.seen w' call' saw hold hsaw
  · intro w' call' response' hw'
    obtain ⟨hold, hsame⟩ := ho.kept_finished hw hw' rfl
    rw [hsame]
    exact hc.brought w' call' response' hold
  · intro j hj
    by_cases hji : j = call.slot
    · subst hji
      rw [finished_slots, Function.update_self] at hj ⊢
      unfold finishedSlot at hj ⊢
      split at hj
      · simp [freedSlot] at hj
      · rename_i hne
        rw [if_neg hne]
        intro hcancel
        have hcancel : result = .requestCancelled := hcancel
        subst hcancel
        exact hne (hc.brought w call response hw)
    · rw [finished_other hji] at hj ⊢
      exact hc.complete j hj

theorem Contained.reach {s : System T} (hr : AsyncReach T h s)
    (hasked : CancelsOnlyIfAsked h) : Contained h s := by
  refine hr.invariant
    (P := fun h s => CancelsOnlyIfAsked h → Contained h s) ?_ ?_ hasked
  · intro s heq _
    subst heq
    refine ⟨?_, ?_, ?_⟩
    · intro w call saw hw
      simp at hw
    · intro w call response hw
      simp at hw
    · intro i hi
      cases hi
  · intro h s a b s' hr hc hst hasked
    have hc := hc hasked.init
    have hi := EngineInv.reach hr
    have hreturn : ∀ w answer, (a, b).1 = .performReturn w answer →
        answer.1 = .requestCancelled → SawCancel h w := by
      intro w answer hact hcancel
      have hlast : (h ++ [(a, b)])[h.length]?
          = some (.performReturn w answer, b) := by
        rw [snoc_new, ← hact]
      have := hasked h.length w answer b hlast hcancel
      rwa [List.take_left'] at this
      rfl
    rcases step_effect hst with
      heff | ⟨w, call, result, response, rfl, hw, heff⟩
    · refine hc.effect heff ?_ hreturn
      intro w call saw hw he
      injection he with ha hb
      subst ha hb
      exact observed_abandoned (FlagsRight.reach hr) (Served.reach hr)
        hi.owned hw hst
    · refine (hc.finished hi.owned hw).effect heff ?_ hreturn
      intro w' call' saw _ he
      injection he with ha
      cases ha

-- ============================================================== the result

/-- Cancellation is never visible. A cancel flag is set exactly while its
slot is Abandoned; and with a transport that cancels only when asked, no
Complete slot holds RequestCancelled and no Read reports it. -/
theorem cancellation_invisible {s : System T} (hr : AsyncReach T h s) :
    (∀ i, (s.engine.slots i).cancelFlag = true
      ↔ (s.engine.slots i).state = .abandoned)
      ∧ (CancelsOnlyIfAsked h →
        (∀ i, (s.engine.slots i).state = .complete →
          (s.engine.slots i).transportStatus ≠ .requestCancelled)
        ∧ ∀ (k : Nat) id buffer r,
          h[k]? = some (.read id buffer, .read r) →
          r.requestStatus ≠ Status.requestCancelled.toInt32) := by
  refine ⟨FlagsRight.reach hr, fun hasked => ⟨?_, ?_⟩⟩
  · exact (Contained.reach hr hasked).complete
  · intro k id buffer r hk
    obtain ⟨s₁, hr₁, rfl⟩ := read_event hr hk
    rcases read_cases s₁.engine id buffer with
      ⟨-, hread⟩ | ⟨i, -, ⟨-, hread⟩ | ⟨hdone, hread, -⟩⟩
    · rw [hread]
      exact (by decide : (0 : Int32) ≠ Status.requestCancelled.toInt32)
    · rw [hread]
      exact (by decide : (0 : Int32) ≠ Status.requestCancelled.toInt32)
    · rw [hread]
      intro hstatus
      exact (Contained.reach hr₁ (hasked.take k)).complete i hdone
        (Status.toInt32_injective hstatus)

/-- A request discarded while its transfer runs: the worker sees the flag
and brings RequestCancelled. -/
def cancelled : List (Action Unit) :=
  [.dispatch ⟨()⟩ { url := [104] } ⟨true, true⟩ 7, .firstLock 0, .perform 0,
    .discard 7, .observeCancel 0, .performReturn 0 (.requestCancelled, {}),
    .relock 0, .read 7 (fourBytes 0 0 0 0)]

theorem cancelled_runs :
    ((asyncMachine Unit).exec {} cancelled).isSome = true := by
  decide

/-- A history of these actions that saw the flag set before the worker
came back. -/
theorem cancelled_asked {h : List (Action Unit × Answer Unit)}
    (hacts : h.map Prod.fst = cancelled)
    (hsaw : h[4]? = some (.observeCancel 0, .observed true)) :
    CancelsOnlyIfAsked h := by
  intro k w answer b hk hcancel
  have hact : cancelled[k]? = some (.performReturn w answer) := by
    rw [← hacts, List.getElem?_map, hk]
    rfl
  obtain ⟨rfl, rfl⟩ : k = 5 ∧ w = 0 := by
    rcases k with _ | _ | _ | _ | _ | _ | _ | _ | k <;>
      simp_all [cancelled]
  refine ⟨4, ?_, fun m e hm hget => ?_⟩
  · rw [List.getElem?_take, if_pos (by decide), hsaw]
  · have hlt := pos_lt hget
    rw [List.length_take] at hlt
    omega

theorem cancellation_invisible_discarded :
    ((((asyncMachine Unit).exec {} cancelled).get
        cancelled_runs).1.map Prod.fst)[5]?
          = some (.performReturn 0 (.requestCancelled, {}))
      ∧ ∀ i, ((((asyncMachine Unit).exec {} cancelled).get
          cancelled_runs).2.engine.slots i).state = .complete →
        ((((asyncMachine Unit).exec {} cancelled).get
          cancelled_runs).2.engine.slots i).transportStatus
            ≠ .requestCancelled :=
  ⟨by decide,
    ((cancellation_invisible (.of_exec rfl cancelled_runs)).2
      (cancelled_asked
        ((asyncMachine Unit).exec_actions
          (Option.some_get cancelled_runs).symm)
        (by decide))).1⟩

end RestifyCapl.Http
