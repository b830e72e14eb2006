/-
The references that keep the DLL loaded. A worker thread runs code of
this DLL from its start to `FreeLibraryAndExitThread`, so the module must
not go away in between: every thread that has not left holds one
reference, taken before it was started and given back by its exit.

`liveWorkers` is a smaller count. A thread leaves the pool when its idle
wait ends, under the mutex, and the DLL some time later, without it.
-/
import RestifyCapl.Http.Proofs.FailedDispatch

namespace RestifyCapl.Http

open Lib
open AsyncEngine

variable {T : Type} {h : List (Action T × Answer T)}

-- =============================================================== the count

/-- The thread runs code of this DLL. -/
def Worker.isInside : Worker T → Bool
  | .exited => false
  | _ => true

def System.insideCount (s : System T) : Nat :=
  s.workers.countP Worker.isInside

theorem isInside_notify (pc : Worker T) :
    pc.notify.isInside = pc.isInside := by
  cases pc <;> rfl

-- ==================================================== what each section does

/-- A Dispatch holds on to the reference of a thread it started. -/
theorem dispatch_references {e : AsyncEngine T} {client : HttpClient T}
    {request : HttpRequest} {start : WorkerStart} {seed : UInt32}
    {r : DispatchResult T}
    (h : e.dispatch client request start seed = some r) :
    r.engine.moduleReferences
      = e.moduleReferences + (if r.threadStarted then 1 else 0) := by
  simp only [dispatch] at h
  split at h
  next =>
    cases h
    rfl
  next i hfind =>
    split at h
    next => cases h
    next id minted hmint =>
      obtain ⟨-, -, -, -, -, -, hrefs⟩ := mintIdLocked_some hmint
      have hrefs : minted.moduleReferences = e.moduleReferences := hrefs
      obtain ⟨acquired, threadStarted⟩ := start
      unfold startWorkerLocked at h
      cases acquired <;> cases threadStarted <;>
        simp only [Bool.not_true, Bool.not_false, Bool.false_eq_true, if_true,
          if_false] at h <;>
        split_ifs at h with hneeds <;> cases h <;>
        simp_all [AsyncEngine.setSlot]

/-- The engine's own sections leave the references alone. -/
theorem workerTop_references (e : AsyncEngine T) :
    e.workerTop.2.moduleReferences = e.moduleReferences := by
  unfold workerTop
  split <;> rfl

theorem workerWake_references (e : AsyncEngine T) (g : UInt64)
    (timeout : Bool) :
    (e.workerWake g timeout).2.moduleReferences = e.moduleReferences := by
  unfold workerWake
  split
  · rfl
  · split <;> rfl

theorem workerFinish_references (e : AsyncEngine T) (i) (result : Status)
    (response : HttpResponse) :
    (e.workerFinish i result response).moduleReferences
      = e.moduleReferences := by
  unfold workerFinish
  split <;> rfl

theorem read_references (e : AsyncEngine T) (id : UInt32)
    (buffer : CharBuffer) :
    (e.read id buffer).2.moduleReferences = e.moduleReferences := by
  unfold AsyncEngine.read
  split
  · rfl
  · split
    · rfl
    · dsimp only
      split <;> rfl

theorem discard_references (e : AsyncEngine T) (id : UInt32) :
    (e.discard id).2.moduleReferences = e.moduleReferences := by
  unfold AsyncEngine.discard
  split <;> rfl

-- =========================================================== the invariant

/-- A thread that is inside stays inside: every move but the last. -/
theorem insideCount_set {ws : List (Worker T)} {w : Nat} {pc pc' : Worker T}
    (hw : ws[w]? = some pc) (hpc : pc.isInside = true)
    (hpc' : pc'.isInside = true) :
    (ws.set w pc').countP Worker.isInside = ws.countP Worker.isInside := by
  have hcount := countP_set (p := Worker.isInside) (b := pc') hw
  rw [hpc, hpc'] at hcount
  omega

theorem ofNext_isInside (next : WorkerNext) :
    (Worker.ofNext next : Worker T).isInside = true := by
  cases next <;> rfl

/-- One reference for every thread that has not left. -/
def RefersOnce (s : System T) : Prop :=
  s.engine.moduleReferences = s.insideCount

theorem RefersOnce.step {s s' : System T} {a : Action T} {b : Answer T}
    (hi : RefersOnce s) (hst : s.step a = some (b, s')) : RefersOnce s' := by
  unfold RefersOnce System.insideCount at hi ⊢
  cases a with
  | dispatch client request start seed =>
      simp only [System.step] at hst
      split at hst
      next => cases hst
      next r hr =>
        obtain ⟨-, rfl⟩ := step_result hst
        rw [dispatch_references hr, hi, List.countP_append]
        congr 1
        · split
          · exact (countP_notify isInside_notify _).symm
          · rfl
        · split <;> rfl
  | poll id =>
      obtain ⟨-, rfl⟩ := step_result hst
      exact hi
  | await id ms =>
      simp only [System.step] at hst
      split at hst
      all_goals
        obtain ⟨-, rfl⟩ := step_result hst
        exact hi
  | awaitWake k timeout =>
      simp only [System.step] at hst
      split at hst
      next =>
        split at hst
        all_goals
          obtain ⟨-, rfl⟩ := step_result hst
          exact hi
      next => cases hst
  | read id buffer =>
      obtain ⟨-, rfl⟩ := step_result hst
      rw [← hi]
      exact read_references s.engine id buffer
  | discard id =>
      obtain ⟨-, rfl⟩ := step_result hst
      rw [← hi]
      exact discard_references s.engine id
  | discardAll =>
      obtain ⟨-, rfl⟩ := step_result hst
      show s.engine.moduleReferences = _
      rw [hi]
      exact (countP_notify isInside_notify _).symm
  | firstLock w =>
      simp only [System.step] at hst
      split at hst
      next hw =>
        obtain ⟨-, rfl⟩ := step_result hst
        rw [insideCount_set hw rfl (ofNext_isInside _), ← hi]
        exact workerTop_references s.engine
      next => cases hst
  | wake w timeout =>
      simp only [System.step] at hst
      split at hst
      next g n hw =>
        obtain ⟨-, rfl⟩ := step_result hst
        rw [insideCount_set hw rfl (ofNext_isInside _), ← hi]
        exact workerWake_references s.engine g timeout
      next => cases hst
  | perform w =>
      simp only [System.step] at hst
      split at hst
      next i hw =>
        split at hst
        next => cases hst
        next client hclient =>
          obtain ⟨-, rfl⟩ := step_result hst
          rw [insideCount_set hw rfl rfl]
          exact hi
      next => cases hst
  | observeCancel w =>
      simp only [System.step] at hst
      split at hst
      next call saw hw =>
        obtain ⟨-, rfl⟩ := step_result hst
        rw [insideCount_set hw rfl rfl]
        exact hi
      next => cases hst
  | performReturn w answer =>
      simp only [System.step] at hst
      split at hst
      next call saw hw =>
        obtain ⟨-, rfl⟩ := step_result hst
        rw [insideCount_set hw rfl rfl]
        exact hi
      next => cases hst
  | relock w =>
      simp only [System.step] at hst
      split at hst
      next call result response hw =>
        obtain ⟨-, rfl⟩ := step_result hst
        rw [finish_workers, insideCount_set hw rfl (ofNext_isInside _), ← hi]
        show (s.engine.workerFinish call.slot result
          response).workerTop.2.moduleReferences = _
        rw [workerTop_references, workerFinish_references]
      next => cases hst
  | exitThread w =>
      simp only [System.step] at hst
      split at hst
      next hw =>
        obtain ⟨-, rfl⟩ := step_result hst
        have hcount := countP_set (p := Worker.isInside)
          (b := Worker.exited) hw
        show s.engine.moduleReferences - 1
          = (s.workers.set w .exited).countP Worker.isInside
        rw [hi]
        simp only [Worker.isInside, Bool.false_eq_true, if_true, if_false]
          at hcount
        omega
      next => cases hst

theorem RefersOnce.reach {s : System T} (hr : AsyncReach T h s) :
    RefersOnce s :=
  hr.invariant (P := fun _ s => RefersOnce s)
    (fun s hs => by
      obtain rfl : s = {} := hs
      rfl)
    fun _ _ _ _ _ _ hi hst => hi.step hst

-- ============================================================== the result

/-- Out of the pool, and still in the DLL. -/
def Worker.isExiting : Worker T → Bool
  | .exiting => true
  | _ => false

/-- A thread in the DLL waits, has started, holds a slot or is on its way
out. -/
theorem insideCount_eq (s : System T) :
    s.insideCount = s.waitingCount + s.startedCount + s.busyCount
      + s.workers.countP Worker.isExiting := by
  unfold System.insideCount System.waitingCount System.startedCount
    System.busyCount
  induction s.workers with
  | nil => rfl
  | cons pc ws ih =>
      simp only [List.countP_cons]
      cases pc <;>
        simp [Worker.isInside, Worker.isWaiting, Worker.isStarted,
          Worker.isBusy, Worker.isExiting, Worker.slot?] <;> omega

/-- In every reachable state the engine holds one module reference for
each thread that has not left the DLL: one for each worker of the pool
and one for each on its way out. So the last reference goes with the last
thread. -/
theorem module_references_exact {s : System T} (hr : AsyncReach T h s) :
    s.engine.moduleReferences = s.insideCount
      ∧ s.engine.moduleReferences
        = s.engine.liveWorkers.toNat + s.workers.countP Worker.isExiting
      ∧ (s.engine.moduleReferences = 0 ↔ ∀ pc ∈ s.workers, pc = .exited) := by
  have hrefs := RefersOnce.reach hr
  have hlive := (EngineInv.reach hr).counted.live
  refine ⟨hrefs, ?_, ?_⟩
  · rw [hrefs, insideCount_eq, hlive]
  · rw [hrefs, System.insideCount, List.countP_eq_zero]
    refine forall₂_congr fun pc _ => ?_
    cases pc <;> simp [Worker.isInside]

/-- A thread that finds nothing to do leaves the pool before it leaves the
DLL. -/
def loiter : List (Action Unit) :=
  [.dispatch ⟨()⟩ { url := [104] } ⟨true, true⟩ 7, .discard 7, .firstLock 0,
    .wake 0 true]

theorem loiter_runs :
    ((asyncMachine Unit).exec {} loiter).isSome = true := by
  decide

theorem module_references_exact_loiter :
    (((asyncMachine Unit).exec {} loiter).get
        loiter_runs).2.engine.liveWorkers = 0
      ∧ (((asyncMachine Unit).exec {} loiter).get
          loiter_runs).2.engine.moduleReferences = 1 := by
  have hexact := module_references_exact (.of_exec rfl loiter_runs)
  refine ⟨by decide, ?_⟩
  rw [hexact.1]
  decide

end RestifyCapl.Http
