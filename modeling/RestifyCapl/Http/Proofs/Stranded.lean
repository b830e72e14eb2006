/-
No stranded request. The three invariants together hold of every
reachable state, and from the count bound it follows that a Pending
request never waits for a worker that is inside another request: the
workers that are idle or fresh can claim everything there is to claim,
by steps of their own (`drain`), and none of them has missed the
notification that came with the request (`Notified`).
-/
import RestifyCapl.Http.Proofs.Workers

namespace RestifyCapl.Http

open Lib
open AsyncEngine

variable {T : Type}

/-- What holds of the engine between any two steps. -/
structure EngineInv (s : System T) : Prop where
  owned : Owned s
  distinct : DistinctIds s
  counted : Counted s

-- ====================================================== the whole invariant

theorem EngineInv.init : EngineInv ({} : System T) := by
  refine ⟨⟨?_, ?_, ?_⟩, ⟨?_, ?_⟩, ⟨rfl, rfl, ?_, ?_, ?_⟩⟩
  · intro w i hw
    simp [System.slotOf] at hw
  · intro i hi
    cases hi
  · intro w w' i hw
    simp [System.slotOf] at hw
  · intro i hi
    cases hi
  · intro i j hi
    cases hi
  · exact Nat.zero_le _
  · exact (count_eq_zero.mpr fun i => rfl).symm
  · exact Nat.le_of_eq (pendingCount_zero fun i => rfl)

theorem EngineInv.effect {s s' : System T} {e : Action T × Answer T}
    (hi : EngineInv s) (heff : Effect s e s') : EngineInv s' :=
  ⟨hi.owned.effect heff, hi.distinct.effect heff, hi.counted.effect heff⟩

theorem EngineInv.finished {s : System T} {w : Nat} {call : PerformCall T}
    {result : Status} {response : HttpResponse} (hi : EngineInv s)
    (hw : s.workers[w]? = some (.performed call result response)) :
    EngineInv (s.finished w call result response) :=
  ⟨hi.owned.finished hw, hi.distinct.finished hi.owned hw,
    hi.counted.finished hi.owned hw⟩

theorem EngineInv.step {s s' : System T} {a : Action T} {b : Answer T}
    (hi : EngineInv s) (h : s.step a = some (b, s')) : EngineInv s' := by
  rcases step_effect h with heff | ⟨w, call, result, response, -, hw, heff⟩
  · exact hi.effect heff
  · exact (hi.finished hw).effect heff

theorem EngineInv.reach {h : List (Action T × Answer T)} {s : System T}
    (hr : AsyncReach T h s) : EngineInv s :=
  hr.invariant (P := fun _ s => EngineInv s)
    (fun s hs => by
      obtain rfl : s = {} := hs
      exact .init)
    fun _ _ _ _ _ _ hi hst => hi.step hst

-- ============================================================ notification

/-- While a request is Pending, every worker in the idle wait has been
notified since it last looked at the slots. -/
def Notified (s : System T) : Prop :=
  (∃ i, (s.engine.slots i).isPending = true) →
    ∀ (w : Nat) g n, s.workers[w]? = some (.waiting g n) → n = true

/-- A write that makes no slot Pending keeps `Notified`, if no worker
goes to wait. -/
theorem Notified.frame {s s' : System T} (hn : Notified s)
    (hpend : ∀ i, (s'.engine.slots i).isPending = true →
      (s.engine.slots i).isPending = true)
    (hwait : ∀ (w : Nat) g n, s'.workers[w]? = some (.waiting g n) →
      s.workers[w]? = some (.waiting g n)) :
    Notified s' := by
  intro hi w g n hw
  obtain ⟨i, hi⟩ := hi
  exact hn ⟨i, hpend i hi⟩ w g n (hwait w g n hw)

theorem pending_update {t : Fin kAsyncRequestSlotCount → Slot T} {i}
    {a : Slot T} (ha : a.isPending = false) (j)
    (hj : (Function.update t i a j).isPending = true) :
    (t j).isPending = true := by
  by_cases hji : j = i
  · subst hji
    rw [Function.update_self, ha] at hj
    cases hj
  · rw [Function.update_of_ne hji] at hj
    exact hj

/-- Setting a worker to a position that is not the idle wait leaves the
waiting workers as they were. -/
theorem waiting_set {s s' : System T} {w₀ : Nat} {pc' : Worker T}
    (hset : s'.workers = s.workers.set w₀ pc')
    (hpc : pc'.isWaiting = false) (w : Nat) (g n)
    (hw : s'.workers[w]? = some (.waiting g n)) :
    s.workers[w]? = some (.waiting g n) := by
  rcases worker_of_set hset hw with ⟨-, heq⟩ | hold
  · rw [heq] at hpc
    cases hpc
  · exact hold

/-- A broadcast reaches every worker in the idle wait. -/
theorem waiting_notified {s s' : System T} {started : Bool}
    (h : s'.workers = notifyWorkers s.workers
      ++ if started then [.started] else []) (w : Nat) (g n)
    (hw : s'.workers[w]? = some (.waiting g n)) : n = true := by
  have hmem := List.mem_of_getElem? hw
  rw [h, List.mem_append] at hmem
  rcases hmem with hmem | hmem
  · obtain ⟨pc, -, hpc⟩ := List.mem_map.mp hmem
    cases pc with
    | waiting g' n' =>
        injection hpc with _ hn
        exact hn.symm
    | _ => cases hpc
  · cases started <;> simp at hmem

theorem Notified.effect {s s' : System T} {e : Action T × Answer T}
    (hn : Notified s) (heff : Effect s e s') : Notified s' := by
  cases heff with
  | quiet he hslots hworkers hcounts =>
      exact hn.frame (fun i hi => by rwa [hslots] at hi)
        fun w g n hw => by rwa [hworkers] at hw
  | issued i id client request start seed started hi hid hfresh hslots
      hworkers hidle hlive hrule =>
      exact fun _ => waiting_notified hworkers
  | unissued he i hi hslots hworkers hcounts =>
      refine hn.frame (fun j hj => ?_) fun w g n hw => by rwa [hworkers] at hw
      rw [hslots] at hj
      exact pending_update rfl j hj
  | consumed i hi hrun he hslots hworkers hcounts =>
      refine hn.frame (fun j hj => ?_) fun w g n hw => by rwa [hworkers] at hw
      rw [hslots] at hj
      exact pending_update rfl j hj
  | abandoned i hi hslots hworkers hcounts =>
      refine hn.frame (fun j hj => ?_) fun w g n hw => by rwa [hworkers] at hw
      rw [hslots] at hj
      exact pending_update rfl j hj
  | cleared n hslots hworkers hcounts =>
      exact fun _ => waiting_notified (broadcast_only hworkers)
  | claims he w pc i hw hpc hi hslots hworkers hidle hlive =>
      refine hn.frame (fun j hj => ?_) (waiting_set hworkers rfl)
      rw [hslots] at hj
      exact pending_update rfl j hj
  | idles he w g hw hnone hslots hworkers hidle hlive =>
      intro hi
      obtain ⟨i, hi⟩ := hi
      rw [hslots, hnone i] at hi
      cases hi
  | rewaits he w g n hw hnone hslots hworkers hcounts =>
      intro hi
      obtain ⟨i, hi⟩ := hi
      rw [hslots, hnone i] at hi
      cases hi
  | leaves w timeout g n hw hnone hslots hworkers hidle hlive =>
      exact hn.frame (fun i hi => by rwa [hslots] at hi)
        (waiting_set hworkers rfl)
  | calls w i client hw hclient hslots hworkers hcounts =>
      exact hn.frame (fun i hi => by rwa [hslots] at hi)
        (waiting_set hworkers rfl)
  | observes he w call saw saw' hw hslots hworkers hcounts =>
      exact hn.frame (fun i hi => by rwa [hslots] at hi)
        (waiting_set hworkers rfl)
  | returns w call saw answer hw hslots hworkers hcounts =>
      exact hn.frame (fun i hi => by rwa [hslots] at hi)
        (waiting_set hworkers rfl)
  | exits he w hw hslots hworkers hcounts =>
      exact hn.frame (fun i hi => by rwa [hslots] at hi)
        (waiting_set hworkers rfl)

theorem Notified.finished {s : System T} {w : Nat} {call : PerformCall T}
    {result : Status} {response : HttpResponse} (hn : Notified s) :
    Notified (s.finished w call result response) := by
  refine hn.frame (fun j hj => ?_) (waiting_set (finished_workers ..) rfl)
  rw [finished_slots] at hj
  exact pending_update (finishedSlot_pending ..) j hj

/-- No wakeup is lost, in any interleaving. -/
theorem Notified.reach {h : List (Action T × Answer T)} {s : System T}
    (hr : AsyncReach T h s) : Notified s := by
  refine hr.invariant (P := fun _ s => Notified s) ?_ ?_
  · intro s heq
    subst heq
    intro hi
    obtain ⟨i, hi⟩ := hi
    cases hi
  · intro h s a b s' _ hn hst
    rcases step_effect hst with heff | ⟨w, call, result, response, -, -, heff⟩
    · exact hn.effect heff
    · exact hn.finished.effect heff

-- ================================================================ draining

/-- The look for work of a worker that is not inside a request. -/
def LooksForWork (s : System T) (a : Action T) : Prop :=
  ∃ (w : Nat) (pc : Worker T), s.workers[w]? = some pc ∧ pc.isBusy = false
    ∧ (a = .firstLock w ∨ ∃ timeout, a = .wake w timeout)

/-- A worker that sees a Pending slot when it looks claims one. -/
theorem claim_step {s : System T} {w : Nat} {pc : Worker T}
    (hw : s.workers[w]? = some pc)
    (hpc : pc = .started ∨ ∃ g n, pc = .waiting g n)
    (hpend : 0 < s.pendingCount) :
    ∃ a i s', (a = .firstLock w ∨ ∃ timeout, a = .wake w timeout)
      ∧ s.step a = some (.worker (.perform i), s')
      ∧ (s.engine.slots i).isPending = true
      ∧ s'.engine.slots = Function.update s.engine.slots i
          { s.engine.slots i with state := .running }
      ∧ s'.workers = s.workers.set w (.claimed i) := by
  obtain ⟨i, hfind⟩ : ∃ i, s.engine.findPendingSlotLocked = some i := by
    cases hfind : s.engine.findPendingSlotLocked with
    | some i => exact ⟨i, rfl⟩
    | none =>
        have := pendingCount_zero (findFirst_none.mp hfind)
        omega
  have hi : (s.engine.slots i).isPending = true := findFirst_some hfind
  rcases hpc with rfl | ⟨g, n, rfl⟩
  · have hstep : s.step (.firstLock w)
        = some (s.letGo w (.perform i, s.engine.claim i)) := by
      simp only [System.step, hw, workerTop, hfind]
    exact ⟨_, i, _, Or.inl rfl, hstep, hi, rfl, rfl⟩
  · have hstep : s.step (.wake w false)
        = some (s.letGo w (.perform i, { s.engine with
            idleWorkers := s.engine.idleWorkers - 1 }.claim i)) := by
      simp only [System.step, hw, workerWake, hfind]
    exact ⟨_, i, _, Or.inr ⟨false, rfl⟩, hstep, hi, rfl, rfl⟩

/-- While a request is Pending, some worker outside every request can
claim one in its next step. -/
theorem EngineInv.exists_claim {s : System T} (hi : EngineInv s)
    (hpend : 0 < s.pendingCount) :
    ∃ (w : Nat) (pc : Worker T) (a : Action T)
        (i : Fin kAsyncRequestSlotCount) (s' : System T),
      s.workers[w]? = some pc ∧ pc.isBusy = false
      ∧ (a = .firstLock w ∨ ∃ timeout, a = .wake w timeout)
      ∧ s.step a = some (.worker (.perform i), s')
      ∧ s'.workers = s.workers.set w (.claimed i)
      ∧ s'.pendingCount + 1 = s.pendingCount := by
  have hbound := hi.counted.pending
  obtain ⟨w, pc, hw, hpc⟩ : ∃ (w : Nat) (pc : Worker T),
      s.workers[w]? = some pc
        ∧ (pc = .started ∨ ∃ g n, pc = .waiting g n) := by
    rcases Nat.eq_zero_or_pos s.waitingCount with h0 | hpos
    · have hstarted : 0 < s.startedCount := by omega
      obtain ⟨pc, hmem, hpc⟩ := List.countP_pos_iff.mp hstarted
      obtain ⟨w, hw⟩ := List.mem_iff_getElem?.mp hmem
      refine ⟨w, pc, hw, Or.inl ?_⟩
      cases pc <;> first | rfl | cases hpc
    · obtain ⟨pc, hmem, hpc⟩ := List.countP_pos_iff.mp hpos
      obtain ⟨w, hw⟩ := List.mem_iff_getElem?.mp hmem
      refine ⟨w, pc, hw, Or.inr ?_⟩
      cases pc with
      | waiting g n => exact ⟨g, n, rfl⟩
      | _ => cases hpc
  obtain ⟨a, i, s', ha, hstep, hpi, hslots, hworkers⟩ :=
    claim_step hw hpc hpend
  refine ⟨w, pc, a, i, s', hw, ?_, ha, hstep, hworkers, ?_⟩
  · rcases hpc with rfl | ⟨g, n, rfl⟩ <;> rfl
  · have hcount := count_update Slot.isPending s.engine.slots i
      { s.engine.slots i with state := .running }
    have hrun : Slot.isPending { s.engine.slots i with state := .running }
        = false := rfl
    rw [← hslots, hpi, hrun] at hcount
    simpa [System.pendingCount] using hcount

/-- The workers outside every request can claim all that is Pending, by
looks for work alone. -/
theorem EngineInv.drain {s : System T} (hi : EngineInv s) :
    ∃ h' s', (asyncMachine T).Run s h' s'
      ∧ (∀ e ∈ h', LooksForWork s e.1) ∧ s'.pendingCount = 0 := by
  induction hn : s.pendingCount generalizing s with
  | zero => exact ⟨[], s, .nil s, by simp, hn⟩
  | succ n ih =>
      obtain ⟨w, pc, a, i, s₁, hw, hpc, ha, hstep, hworkers, hcount⟩ :=
        hi.exists_claim (by omega)
      obtain ⟨h', s', hrun, hlooks, hzero⟩ := ih (hi.step hstep) (by omega)
      refine ⟨_, s', .cons hstep hrun, ?_, hzero⟩
      intro e he
      rcases List.mem_cons.mp he with rfl | he
      · exact ⟨w, pc, hw, hpc, ha⟩
      · -- the claimer is busy now, so this is another worker's look
        obtain ⟨w', pc', hw', hpc', hact⟩ := hlooks e he
        refine ⟨w', pc', ?_, hpc', hact⟩
        rcases worker_of_set hworkers hw' with ⟨-, hbusy⟩ | hold
        · rw [← hbusy] at hpc'
          cases hpc'
        · exact hold

-- ================================================================ the exit

/-- Setting a worker to another position makes nobody leave. -/
theorem exiting_set {s s' : System T} {w₀ : Nat} {pc' : Worker T}
    (hset : s'.workers = s.workers.set w₀ pc') (hpc : pc' ≠ .exiting)
    {w : Nat} (hw : s'.workers[w]? = some .exiting) :
    s.workers[w]? = some .exiting := by
  rcases worker_of_set hset hw with ⟨-, heq⟩ | hold
  · exact absurd heq hpc
  · exact hold

/-- Nor does a broadcast. -/
theorem exiting_notify {s s' : System T} {started : Bool}
    (h : s'.workers = notifyWorkers s.workers
      ++ if started then [.started] else [])
    {w : Nat} (hw : s'.workers[w]? = some .exiting) :
    s.workers[w]? = some .exiting := by
  rw [h] at hw
  by_cases hlt : w < s.workers.length
  · rw [List.getElem?_append_left (by simpa [notifyWorkers] using hlt),
      notifyWorkers, List.getElem?_map] at hw
    obtain ⟨pc, hpc, hnot⟩ := Option.map_eq_some_iff.mp hw
    rw [hpc]
    cases pc <;> first | rfl | cases hnot
  · rw [List.getElem?_append_right (by simpa [notifyWorkers] using hlt)]
      at hw
    have hmem := List.mem_of_getElem? hw
    cases started <;> simp at hmem

/-- A worker that has left had left before, or left just now from an
idle wait that found no slot Pending. -/
theorem Effect.exiting {s s' : System T} {e : Action T × Answer T}
    (heff : Effect s e s') {w : Nat}
    (hw : s'.workers[w]? = some .exiting) :
    s.workers[w]? = some .exiting
      ∨ ((∃ w₀ timeout, e.1 = .wake w₀ timeout)
        ∧ (∀ i, (s.engine.slots i).isPending = false)
        ∧ s'.engine.slots = s.engine.slots) := by
  cases heff with
  | leaves w₀ timeout g n hw₀ hnone hslots =>
      exact Or.inr ⟨⟨w₀, timeout, rfl⟩, hnone, hslots⟩
  | quiet _ _ hworkers | unissued _ _ _ _ hworkers
  | consumed _ _ _ _ _ hworkers | abandoned _ _ _ hworkers =>
      exact Or.inl (hworkers ▸ hw)
  | issued _ _ _ _ _ _ _ _ _ _ _ hworkers =>
      exact Or.inl (exiting_notify hworkers hw)
  | cleared _ _ hworkers =>
      exact Or.inl (exiting_notify (broadcast_only hworkers) hw)
  | claims _ _ _ _ _ _ _ _ hworkers | idles _ _ _ _ _ _ hworkers
  | rewaits _ _ _ _ _ _ _ hworkers | calls _ _ _ _ _ _ hworkers
  | observes _ _ _ _ _ _ _ hworkers | returns _ _ _ _ _ _ hworkers
  | exits _ _ _ _ hworkers =>
      exact Or.inl (exiting_set hworkers (by simp) hw)

/-- A worker leaves the pool only where no slot is Pending. -/
theorem exit_none_pending {s s' : System T} {a : Action T} {b : Answer T}
    (hst : s.step a = some (b, s')) {w : Nat}
    (hafter : s'.workers[w]? = some .exiting)
    (hbefore : s.workers[w]? ≠ some .exiting) (i) :
    (s.engine.slots i).isPending = false
      ∧ (s'.engine.slots i).isPending = false := by
  rcases step_effect hst with
    heff | ⟨w₁, call, result, response, rfl, hw₁, heff⟩
  · rcases heff.exiting hafter with hold | ⟨-, hnone, hslots⟩
    · exact absurd hold hbefore
    · exact ⟨hnone i, by rw [hslots]; exact hnone i⟩
  · rcases heff.exiting hafter with hmid | ⟨⟨w₀, timeout, hact⟩, -⟩
    · exact absurd (exiting_set (finished_workers ..) (by simp) hmid)
        hbefore
    · cases hact

-- ============================================================== the result

/-- No stranded request. In every reachable state at most eight workers
are live, the idle counter is the number of workers in the idle wait,
and every Pending slot has a worker of its own among those in the idle
wait or about to take their first lock. So what is Pending can be
claimed without a step of any busy worker, and no worker leaves the pool
while a slot is Pending. -/
theorem no_stranded_request {h : List (Action T × Answer T)}
    {s : System T} (hr : AsyncReach T h s) :
    s.engine.liveWorkers.toNat ≤ 8
      ∧ s.engine.idleWorkers.toNat = s.waitingCount
      ∧ s.pendingCount ≤ s.engine.idleWorkers.toNat + s.startedCount
      ∧ (∃ h' s', (asyncMachine T).Run s h' s'
        ∧ (∀ e ∈ h', LooksForWork s e.1) ∧ s'.pendingCount = 0)
      ∧ ∀ (a : Action T) (b : Answer T) (s' : System T) (w : Nat),
        s.step a = some (b, s') →
        s'.workers[w]? = some .exiting → s.workers[w]? ≠ some .exiting →
        ∀ i, (s.engine.slots i).state ≠ .pending
          ∧ (s'.engine.slots i).state ≠ .pending := by
  have hi := EngineInv.reach hr
  refine ⟨hi.counted.cap, hi.counted.idle, ?_, hi.drain, ?_⟩
  · rw [hi.counted.idle]
    exact hi.counted.pending
  · intro a b s' w hst hafter hbefore i
    obtain ⟨h₁, h₂⟩ := exit_none_pending hst hafter hbefore i
    exact ⟨by simpa [Slot.isPending] using h₁,
      by simpa [Slot.isPending] using h₂⟩

/-- Two dispatches that both start a worker, before either worker runs. -/
def burst : List (Action Unit) :=
  [.dispatch ⟨()⟩ {} ⟨true, true⟩ 7, .dispatch ⟨()⟩ {} ⟨true, true⟩ 7]

theorem burst_runs : ((asyncMachine Unit).exec {} burst).isSome = true := by
  decide

theorem no_stranded_request_burst :
    (((asyncMachine Unit).exec {} burst).get burst_runs).2.pendingCount = 2
      ∧ (((asyncMachine Unit).exec {} burst).get
          burst_runs).2.engine.liveWorkers.toNat ≤ 8 :=
  ⟨by decide, (no_stranded_request (.of_exec rfl burst_runs)).1⟩

end RestifyCapl.Http
