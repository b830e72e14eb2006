/-
What the history says about the slots. A slot in use carries the request
of the last Dispatch that issued its id; a worker inside `Perform`
carries the same request and a begin event after that Dispatch; a
Complete slot holds the outcome of such a call. `Served` says all of it,
together with what has not happened yet under an id: no perform while
the request is Pending or only claimed, no successful Read while the id
is live.

A step is carried over in two moves. `Served.frame` changes the state
under a fixed history, `Served.extend` adds an event under a fixed
state. Only a Dispatch that issues an id does both at once.
-/
import RestifyCapl.Http.Proofs.Stranded

namespace RestifyCapl.Http

open Lib
open AsyncEngine

variable {T : Type} {h : List (Action T × Answer T)}

-- ========================================================= the vocabulary

/-- The slot holds what the call was made with. -/
def Slot.Holds (a : Slot T) (call : PerformCall T) : Prop :=
  a.id = call.id ∧ a.client = some call.client ∧ a.request = call.request

/-- Slot `i` holds the client and the request of the last Dispatch that
issued its id, with its own cancel flag put in. -/
def Carries (h : List (Action T × Answer T))
    (i : Fin kAsyncRequestSlotCount) (a : Slot T) : Prop :=
  ∃ d client request start seed,
    Latest (Issues a.id) h d
      (.dispatch client request start seed, .dispatched .ok a.id)
    ∧ a.client = some client
    ∧ a.request = { request with cancelFlag := some i.val }

/-- Worker `w` began the call after the last Dispatch of its id. -/
def Began (h : List (Action T × Answer T)) (w : Nat)
    (call : PerformCall T) : Prop :=
  ∃ d e p, Latest (Issues call.id) h d e ∧ d < p
    ∧ h[p]? = some (.perform w, .performing call)

/-- Worker `w` began the call after the last Dispatch of its id, and the
call has come back with this outcome. -/
def Returned (h : List (Action T × Answer T)) (w : Nat)
    (call : PerformCall T) (result : Status) (response : HttpResponse) :
    Prop :=
  ∃ d e p q answer, Latest (Issues call.id) h d e ∧ d < p ∧ p < q
    ∧ h[p]? = some (.perform w, .performing call)
    ∧ h[q]? = some
      (.performReturn w answer, .performReturned call result response)
    ∧ (result, response) = call.client.perform answer call.request {}

/-- The outcome in the slot is that of a call made with what it holds. -/
def Done (h : List (Action T × Answer T)) (i : Fin kAsyncRequestSlotCount)
    (a : Slot T) : Prop :=
  ∃ w call, call.slot = i ∧ a.Holds call
    ∧ Returned h w call a.transportStatus a.response

structure Served (h : List (Action T × Answer T)) (s : System T) : Prop where
  carries : ∀ i, (s.engine.slots i).isReusable = false →
    Carries h i (s.engine.slots i)
  pending : ∀ i, (s.engine.slots i).isPending = true →
    NoneSince (Performs (s.engine.slots i).id)
      (Issues (s.engine.slots i).id) h
  claimed : ∀ (w : Nat) i, s.workers[w]? = some (.claimed i) →
    NoneSince (Performs (s.engine.slots i).id)
      (Issues (s.engine.slots i).id) h
  performing : ∀ (w : Nat) call saw,
    s.workers[w]? = some (.performing call saw) →
    (s.engine.slots call.slot).Holds call ∧ Began h w call
  performed : ∀ (w : Nat) call result response,
    s.workers[w]? = some (.performed call result response) →
    (s.engine.slots call.slot).Holds call
      ∧ Returned h w call result response
  complete : ∀ i, (s.engine.slots i).state = .complete →
    Done h i (s.engine.slots i)
  unread : ∀ i, (s.engine.slots i).isLive = true →
    NoneSince (ReadsOk (s.engine.slots i).id)
      (Issues (s.engine.slots i).id) h
  oncePerform : ∀ id, OncePer (Performs id) (Issues id) h
  onceRead : ∀ id, OncePer (ReadsOk id) (Issues id) h

-- ======================================================= longer histories

theorem Carries.snoc {i} {a : Slot T} {e : Action T × Answer T}
    (hc : Carries h i a) (he : ¬ Issues a.id e) :
    Carries (h ++ [e]) i a := by
  obtain ⟨d, client, request, start, seed, hl, hclient, hrequest⟩ := hc
  exact ⟨d, client, request, start, seed, hl.snoc he, hclient, hrequest⟩

theorem Began.snoc {w : Nat} {call : PerformCall T}
    {e : Action T × Answer T} (hb : Began h w call)
    (he : ¬ Issues call.id e) : Began (h ++ [e]) w call := by
  obtain ⟨d, e₀, p, hl, hdp, hp⟩ := hb
  exact ⟨d, e₀, p, hl.snoc he, hdp, snoc_old hp⟩

theorem Returned.snoc {w : Nat} {call : PerformCall T} {result : Status}
    {response : HttpResponse} {e : Action T × Answer T}
    (hr : Returned h w call result response) (he : ¬ Issues call.id e) :
    Returned (h ++ [e]) w call result response := by
  obtain ⟨d, e₀, p, q, answer, hl, hdp, hpq, hp, hq, hout⟩ := hr
  exact ⟨d, e₀, p, q, answer, hl.snoc he, hdp, hpq, snoc_old hp,
    snoc_old hq, hout⟩

theorem Done.snoc {i} {a : Slot T} {e : Action T × Answer T}
    (hd : Done h i a) (he : ¬ Issues a.id e) : Done (h ++ [e]) i a := by
  obtain ⟨w, call, hi, hholds, hr⟩ := hd
  exact ⟨w, call, hi, hholds, hr.snoc (hholds.1 ▸ he)⟩

/-- A call that comes back makes its begin a return. -/
theorem Began.returned {w : Nat} {call : PerformCall T}
    {answer : Status × HttpResponse} {e : Action T × Answer T}
    (hb : Began h w call)
    (he : e = (.performReturn w answer, .performReturned call
      (call.client.perform answer call.request {}).1
      (call.client.perform answer call.request {}).2)) :
    Returned (h ++ [e]) w call
      (call.client.perform answer call.request {}).1
      (call.client.perform answer call.request {}).2 := by
  obtain ⟨d, e₀, p, hl, hdp, hp⟩ := hb
  refine ⟨d, e₀, p, h.length, answer, hl.snoc (not_issues (by simp [he])),
    hdp, pos_lt hp, snoc_old hp, ?_, rfl⟩
  rw [snoc_new, he]

-- ================================================= the state under a history

/-- The client, the request and the id of a slot. -/
def SameRequest (a a' : Slot T) : Prop :=
  a'.id = a.id ∧ a'.client = a.client ∧ a'.request = a.request

theorem SameRequest.refl (a : Slot T) : SameRequest a a := ⟨rfl, rfl, rfl⟩

/-- A slot that keeps its request holds what it held. -/
theorem SameRequest.holds {a a' : Slot T} {call : PerformCall T}
    (hs : SameRequest a a') (hh : a.Holds call) : a'.Holds call := by
  obtain ⟨hid, hclient, hrequest⟩ := hs
  unfold Slot.Holds at hh ⊢
  rwa [hid, hclient, hrequest]

/-- What may become of a slot when no id is issued. -/
inductive SlotKept (h : List (Action T × Answer T))
    (i : Fin kAsyncRequestSlotCount) (a a' : Slot T) : Prop
  | reusable (hr : a'.isReusable = true)
  | same (hsame : SameRequest a a') (huse : a.isReusable = false)
      (hpending : a'.isPending = true → a.isPending = true)
      (hlive : a'.isLive = true → a.isLive = true)
      (hcomplete : a'.state = .complete → Done h i a')

/-- Where a worker may stand after a move, if it holds a slot. -/
inductive WorkerKept (h : List (Action T × Answer T)) (s s' : System T)
    (w : Nat) : Worker T → Prop
  | free {pc'} (hfree : pc'.slot? = none) : WorkerKept h s s' w pc'
  | same {pc'} (hw : s.workers[w]? = some pc')
      (hslot : ∀ i, pc'.slot? = some i →
        SameRequest (s.engine.slots i) (s'.engine.slots i)) :
      WorkerKept h s s' w pc'
  | claims {i} (hi : (s.engine.slots i).isPending = true)
      (hid : (s'.engine.slots i).id = (s.engine.slots i).id) :
      WorkerKept h s s' w (.claimed i)
  | begun {call saw} (hh : (s'.engine.slots call.slot).Holds call)
      (hb : Began h w call) : WorkerKept h s s' w (.performing call saw)
  | back {call result response}
      (hh : (s'.engine.slots call.slot).Holds call)
      (hr : Returned h w call result response) :
      WorkerKept h s s' w (.performed call result response)

theorem Served.frame {s s' : System T} (hv : Served h s)
    (hslots : ∀ i, SlotKept h i (s.engine.slots i) (s'.engine.slots i))
    (hworkers : ∀ (w : Nat) pc', s'.workers[w]? = some pc' →
      WorkerKept h s s' w pc') :
    Served h s' := by
  refine ⟨?_, ?_, ?_, ?_, ?_, ?_, ?_, hv.oncePerform, hv.onceRead⟩
  · intro i hi
    cases hslots i with
    | reusable hr =>
        rw [hr] at hi
        cases hi
    | same hsame huse =>
        obtain ⟨hid, hclient, hrequest⟩ := hsame
        have := hv.carries i huse
        unfold Carries at this ⊢
        rwa [hid, hclient, hrequest]
  · intro i hi
    cases hslots i with
    | reusable hr =>
        unfold Slot.isReusable at hr
        unfold Slot.isPending at hi
        cases hs : (s'.engine.slots i).state <;> simp [hs] at hr hi
    | same hsame _ hpending =>
        rw [hsame.1]
        exact hv.pending i (hpending hi)
  · intro w i hw
    cases hworkers w _ hw with
    | free hfree => cases hfree
    | same hw₀ hslot =>
        rw [(hslot i rfl).1]
        exact hv.claimed w i hw₀
    | claims hi hid =>
        rw [hid]
        exact hv.pending i hi
  · intro w call saw hw
    cases hworkers w _ hw with
    | free hfree => cases hfree
    | same hw₀ hslot =>
        obtain ⟨hholds, hb⟩ := hv.performing w call saw hw₀
        exact ⟨(hslot call.slot rfl).holds hholds, hb⟩
    | begun hh hb => exact ⟨hh, hb⟩
  · intro w call result response hw
    cases hworkers w _ hw with
    | free hfree => cases hfree
    | same hw₀ hslot =>
        obtain ⟨hholds, hr⟩ := hv.performed w call result response hw₀
        exact ⟨(hslot call.slot rfl).holds hholds, hr⟩
    | back hh hr => exact ⟨hh, hr⟩
  · intro i hi
    cases hslots i with
    | reusable hr => simp [Slot.isReusable, hi] at hr
    | same _ _ _ _ hcomplete => exact hcomplete hi
  · intro i hi
    cases hslots i with
    | reusable hr =>
        unfold Slot.isReusable at hr
        unfold Slot.isLive at hi
        cases hs : (s'.engine.slots i).state <;> simp [hs] at hr hi
    | same hsame _ _ hlive =>
        rw [hsame.1]
        exact hv.unread i (hlive hi)

-- ================================================= the history under a state

/-- An event that issues nothing; a perform or a successful Read must be
the first of its id, and its slot must no longer wait for one. -/
theorem Served.extend {s : System T} {e : Action T × Answer T}
    (hv : Served h s) (hissue : ∀ id, ¬ Issues id e)
    (hperform : ∀ id, Performs id e →
      NoneSince (Performs id) (Issues id) h
      ∧ (∀ i, (s.engine.slots i).isPending = true →
        (s.engine.slots i).id ≠ id)
      ∧ ∀ (w : Nat) i, s.workers[w]? = some (.claimed i) →
        (s.engine.slots i).id ≠ id)
    (hread : ∀ id, ReadsOk id e →
      NoneSince (ReadsOk id) (Issues id) h
      ∧ ∀ i, (s.engine.slots i).isLive = true →
        (s.engine.slots i).id ≠ id) :
    Served (h ++ [e]) s where
  carries i hi := (hv.carries i hi).snoc (hissue _)
  pending i hi := (hv.pending i hi).snoc fun hp =>
    (hperform _ hp).2.1 i hi rfl
  claimed w i hw := (hv.claimed w i hw).snoc fun hp =>
    (hperform _ hp).2.2 w i hw rfl
  performing w call saw hw :=
    have ⟨hholds, hb⟩ := hv.performing w call saw hw
    ⟨hholds, hb.snoc (hissue _)⟩
  performed w call result response hw :=
    have ⟨hholds, hr⟩ := hv.performed w call result response hw
    ⟨hholds, hr.snoc (hissue _)⟩
  complete i hi := (hv.complete i hi).snoc (hissue _)
  unread i hi := (hv.unread i hi).snoc fun hr => (hread _ hr).2 i hi rfl
  oncePerform id := (hv.oncePerform id).snoc fun hp => (hperform id hp).1
  onceRead id := (hv.onceRead id).snoc fun hr => (hread id hr).1

theorem Served.silent {s : System T} {e : Action T × Answer T}
    (hv : Served h s) (he : Silent e) : Served (h ++ [e]) s :=
  hv.extend (fun id => (he id).1) (fun id hp => absurd hp (he id).2.1)
    fun id hr => absurd hr (he id).2.2

-- ====================================================== what an effect keeps

theorem busy_of_update {t : Fin kAsyncRequestSlotCount → Slot T} {i}
    {a : Slot T}
    (ha : (t i).isBusy = true → a.isBusy = true ∧ SameRequest (t i) a)
    (j) (hj : (t j).isBusy = true) :
    (Function.update t i a j).isBusy = true
      ∧ SameRequest (t j) (Function.update t i a j) := by
  by_cases hji : j = i
  · subst hji
    rw [Function.update_self]
    exact ha hj
  · rw [Function.update_of_ne hji]
    exact ⟨hj, .refl _⟩

/-- No effect takes a busy slot from its worker, or changes what the
worker reads through its pointer. -/
theorem Effect.held {s s' : System T} {e : Action T × Answer T}
    (heff : Effect s e s') (j) (hj : (s.engine.slots j).isBusy = true) :
    (s'.engine.slots j).isBusy = true
      ∧ SameRequest (s.engine.slots j) (s'.engine.slots j) := by
  cases heff with
  | issued i _ _ _ _ _ _ hi _ _ hslots | unissued _ i hi hslots =>
      rw [hslots]
      refine busy_of_update (fun hb => ?_) j hj
      rw [Slot.reusable_of_busy hb] at hi
      cases hi
  | consumed i hi hrun _ hslots =>
      rw [hslots]
      refine busy_of_update (fun hb => ?_) j hj
      unfold Slot.isBusy at hb
      unfold Slot.isLive at hi
      cases hs : (s.engine.slots i).state <;> simp [hs] at hb hi hrun
  | abandoned i _ hslots =>
      rw [hslots]
      refine busy_of_update (fun _ => ?_) j hj
      exact ⟨rfl, rfl, rfl, rfl⟩
  | cleared n hslots =>
      rw [hslots]
      refine ⟨(discardAllSlot_busy _).trans hj, ?_⟩
      unfold Slot.isBusy at hj
      unfold discardAllSlot
      cases hs : (s.engine.slots j).state <;> simp [hs] at hj ⊢
      · exact ⟨rfl, rfl, rfl⟩
      · exact .refl _
  | claims _ _ _ i _ _ _ hslots =>
      rw [hslots]
      refine busy_of_update (fun _ => ?_) j hj
      exact ⟨rfl, rfl, rfl, rfl⟩
  | quiet _ hslots | idles _ _ _ _ _ hslots | rewaits _ _ _ _ _ _ hslots
  | leaves _ _ _ _ _ _ hslots | calls _ _ _ _ _ hslots
  | observes _ _ _ _ _ _ hslots | returns _ _ _ _ _ hslots
  | exits _ _ _ hslots =>
      rw [hslots]
      exact ⟨hj, .refl _⟩

/-- The relock writes its own slot only. -/
theorem finished_other {s : System T} {w : Nat} {call : PerformCall T}
    {result : Status} {response : HttpResponse} {j}
    (hj : j ≠ call.slot) :
    (s.finished w call result response).engine.slots j
      = s.engine.slots j := by
  rw [finished_slots, Function.update_of_ne hj]

/-- The other workers find their slots as they were after a relock. -/
theorem Owned.kept_finished {s : System T} {w w' : Nat}
    {call : PerformCall T} {result : Status} {response : HttpResponse}
    {pc : Worker T} {i} (ho : Owned s)
    (hw : s.workers[w]? = some (.performed call result response))
    (hw' : (s.finished w call result response).workers[w']? = some pc)
    (hpc : pc.slot? = some i) :
    s.workers[w']? = some pc
      ∧ (s.finished w call result response).engine.slots i
        = s.engine.slots i := by
  rcases worker_of_set (finished_workers ..) hw' with ⟨-, hfree⟩ | hold
  · rw [← hfree] at hpc
    cases hpc
  · refine ⟨hold, finished_other fun heq => ?_⟩
    have hslot := (slotOf_of_get hold).trans hpc
    rw [heq] at hslot
    obtain rfl := ho.unique w' w _ hslot (slotOf_of_get hw)
    have hlt := (List.getElem?_eq_some_iff.mp hw).1
    rw [finished_workers, List.getElem?_set_self hlt] at hw'
    rw [← Option.some.inj hw'] at hpc
    cases hpc

-- ======================================================== the frame's cases

theorem Served.kept_refl {s : System T} (hv : Served h s) (i) :
    SlotKept h i (s.engine.slots i) (s.engine.slots i) := by
  cases hr : (s.engine.slots i).isReusable with
  | true => exact .reusable hr
  | false => exact .same (.refl _) hr id id (hv.complete i)

theorem Served.kept_eq {s s' : System T} (hv : Served h s)
    (hslots : s'.engine.slots = s.engine.slots) (i) :
    SlotKept h i (s.engine.slots i) (s'.engine.slots i) := by
  rw [hslots]
  exact hv.kept_refl i

theorem Served.kept_update {s s' : System T} {i} {a : Slot T}
    (hv : Served h s)
    (hslots : s'.engine.slots = Function.update s.engine.slots i a)
    (ha : SlotKept h i (s.engine.slots i) a) (j) :
    SlotKept h j (s.engine.slots j) (s'.engine.slots j) := by
  rw [hslots]
  by_cases hji : j = i
  · subst hji
    rwa [Function.update_self]
  · rw [Function.update_of_ne hji]
    exact hv.kept_refl j

/-- A worker that did not move keeps what it holds. -/
theorem WorkerKept.held {s s' : System T} {w : Nat} {pc : Worker T}
    (ho : Owned s)
    (hheld : ∀ i, (s.engine.slots i).isBusy = true →
      SameRequest (s.engine.slots i) (s'.engine.slots i))
    (hw : s.workers[w]? = some pc) : WorkerKept h s s' w pc :=
  .same hw fun i hi => hheld i (ho.busy w i ((slotOf_of_get hw).trans hi))

/-- After one worker's move, that worker and the ones that did not
move. -/
theorem WorkerKept.set {s s' : System T} {w₀ : Nat} {pc₀ : Worker T}
    (ho : Owned s)
    (hheld : ∀ i, (s.engine.slots i).isBusy = true →
      SameRequest (s.engine.slots i) (s'.engine.slots i))
    (hworkers : s'.workers = s.workers.set w₀ pc₀)
    (hpc : WorkerKept h s s' w₀ pc₀) (w : Nat) (pc : Worker T)
    (hw : s'.workers[w]? = some pc) : WorkerKept h s s' w pc := by
  rcases worker_of_set hworkers hw with ⟨rfl, rfl⟩ | hold
  · exact hpc
  · exact .held ho hheld hold

/-- After a broadcast, notified workers hold what they held. -/
theorem worker_of_notify {s s' : System T} {started : Bool}
    (hworkers : s'.workers = notifyWorkers s.workers
      ++ if started then [.started] else [])
    {w : Nat} {pc : Worker T} (hw : s'.workers[w]? = some pc) :
    pc.slot? = none ∨ s.workers[w]? = some pc := by
  rw [hworkers] at hw
  by_cases hlt : w < s.workers.length
  · rw [List.getElem?_append_left (by simpa [notifyWorkers] using hlt),
      notifyWorkers, List.getElem?_map] at hw
    obtain ⟨pc₀, hpc₀, rfl⟩ := Option.map_eq_some_iff.mp hw
    cases pc₀ with
    | waiting g n => exact Or.inl rfl
    | _ => exact Or.inr hpc₀
  · rw [List.getElem?_append_right (by simpa [notifyWorkers] using hlt)]
      at hw
    have hmem := List.mem_of_getElem? hw
    cases started with
    | true =>
        obtain rfl : pc = .started := by simpa using hmem
        exact Or.inl rfl
    | false => simp at hmem

theorem WorkerKept.notify {s s' : System T} {started : Bool}
    (ho : Owned s)
    (hheld : ∀ i, (s.engine.slots i).isBusy = true →
      SameRequest (s.engine.slots i) (s'.engine.slots i))
    (hworkers : s'.workers = notifyWorkers s.workers
      ++ if started then [.started] else [])
    (w : Nat) (pc : Worker T) (hw : s'.workers[w]? = some pc) :
    WorkerKept h s s' w pc := by
  rcases worker_of_notify hworkers hw with hfree | hold
  · exact .free hfree
  · exact .held ho hheld hold

/-- `DiscardAll` frees a slot or leaves it to its worker. -/
theorem Served.kept_discardAll {s : System T} (hv : Served h s) (i) :
    SlotKept h i (s.engine.slots i) (discardAllSlot (s.engine.slots i)) := by
  have hsame := hv.kept_refl i
  unfold discardAllSlot
  cases hs : (s.engine.slots i).state with
  | free => exact hsame
  | abandoned => exact hsame
  | pending => exact .reusable rfl
  | complete => exact .reusable rfl
  | consumed => exact .reusable rfl
  | running =>
      exact .same ⟨rfl, rfl, rfl⟩ (by simp [Slot.isReusable, hs])
        (by simp [Slot.isPending]) (by simp [Slot.isLive]) (by simp)

-- ============================================================ issuing an id

/-- A Dispatch leaves the workers that held a slot, their slots, and
issues none of their ids. -/
theorem Owned.held_issue {s s' : System T} {id : UInt32} {started : Bool}
    (ho : Owned s)
    (hfresh : ∀ j, (s.engine.slots j).isReusable = false →
      (s.engine.slots j).id ≠ id)
    (hheld : ∀ i, (s.engine.slots i).isBusy = true →
      SameRequest (s.engine.slots i) (s'.engine.slots i))
    (hworkers : s'.workers = notifyWorkers s.workers
      ++ if started then [.started] else [])
    {w : Nat} {pc : Worker T} {j} (hw : s'.workers[w]? = some pc)
    (hj : pc.slot? = some j) :
    s.workers[w]? = some pc
      ∧ SameRequest (s.engine.slots j) (s'.engine.slots j)
      ∧ (s.engine.slots j).id ≠ id := by
  rcases worker_of_notify hworkers hw with hfree | hw₀
  · rw [hfree] at hj
    cases hj
  · have hb := ho.busy w j ((slotOf_of_get hw₀).trans hj)
    exact ⟨hw₀, hheld j hb, hfresh j (Slot.reusable_of_busy hb)⟩

/-- A Dispatch issues an id no slot in use has. -/
theorem Served.issue {s s' : System T} {i} {id : UInt32}
    {client : HttpClient T} {request : HttpRequest} {start : WorkerStart}
    {seed : UInt32} {started : Bool} (hv : Served h s) (ho : Owned s)
    (hfresh : ∀ j, (s.engine.slots j).isReusable = false →
      (s.engine.slots j).id ≠ id)
    (hheld : ∀ i, (s.engine.slots i).isBusy = true →
      SameRequest (s.engine.slots i) (s'.engine.slots i))
    (hslots : s'.engine.slots = Function.update s.engine.slots i
      (dispatchedSlot (s.engine.slots i) i id client request))
    (hworkers : s'.workers = notifyWorkers s.workers
      ++ if started then [.started] else []) :
    Served (h ++ [(.dispatch client request start seed,
      .dispatched .ok id)]) s' := by
  generalize he : ((.dispatch client request start seed,
    .dispatched .ok id) : Action T × Answer T) = e
  have hissue : Issues id e := ⟨client, request, start, seed, he.symm⟩
  have hother : ∀ id', id' ≠ id → ¬ Issues id' e := fun id' hne =>
    not_issues (by simp [← he, hne.symm])
  have hnp : ∀ id', ¬ Performs id' e := fun _ =>
    not_performs (by simp [← he])
  have hnr : ∀ id', ¬ ReadsOk id' e := fun _ => not_readsOk (by simp [← he])
  have hself : s'.engine.slots i
      = dispatchedSlot (s.engine.slots i) i id client request := by
    rw [hslots, Function.update_self]
  have hold : ∀ j, j ≠ i → s'.engine.slots j = s.engine.slots j :=
    fun j hj => by rw [hslots, Function.update_of_ne hj]
  refine ⟨?_, ?_, ?_, ?_, ?_, ?_, ?_, ?_, ?_⟩
  · intro j hj
    by_cases hji : j = i
    · subst hji
      rw [hself]
      refine ⟨h.length, client, request, start, seed, ?_, rfl, rfl⟩
      show Latest (Issues id) _ _ (_, .dispatched .ok id)
      rw [he]
      exact .new hissue
    · rw [hold j hji] at hj ⊢
      exact (hv.carries j hj).snoc (hother _ (hfresh j hj))
  · intro j hj
    by_cases hji : j = i
    · subst hji
      rw [hself]
      exact .reset hissue (hnp _)
    · rw [hold j hji] at hj ⊢
      exact (hv.pending j hj).snoc (hnp _)
  · intro w j hw
    obtain ⟨hw₀, ⟨hid, -⟩, -⟩ := ho.held_issue hfresh hheld hworkers hw rfl
    rw [hid]
    exact (hv.claimed w j hw₀).snoc (hnp _)
  · intro w call saw hw
    obtain ⟨hw₀, hsame, hne⟩ := ho.held_issue hfresh hheld hworkers hw rfl
    obtain ⟨hholds, hb⟩ := hv.performing w call saw hw₀
    exact ⟨hsame.holds hholds, hb.snoc (hother _ (hholds.1 ▸ hne))⟩
  · intro w call result response hw
    obtain ⟨hw₀, hsame, hne⟩ := ho.held_issue hfresh hheld hworkers hw rfl
    obtain ⟨hholds, hr⟩ := hv.performed w call result response hw₀
    exact ⟨hsame.holds hholds, hr.snoc (hother _ (hholds.1 ▸ hne))⟩
  · intro j hj
    by_cases hji : j = i
    · subst hji
      rw [hself] at hj
      cases hj
    · rw [hold j hji] at hj ⊢
      refine (hv.complete j hj).snoc (hother _ (hfresh j ?_))
      simp [Slot.isReusable, hj]
  · intro j hj
    by_cases hji : j = i
    · subst hji
      rw [hself]
      exact .reset hissue (hnr _)
    · rw [hold j hji] at hj ⊢
      exact (hv.unread j hj).snoc (hnr _)
  · exact fun id' => (hv.oncePerform id').snoc fun hp => absurd hp (hnp id')
  · exact fun id' => (hv.onceRead id').snoc fun hr => absurd hr (hnr id')

-- ======================================================== the step's moves

/-- A successful Read takes its slot out of the live ones. -/
theorem Served.readOk {s s' : System T} {i} {buffer : CharBuffer}
    {result : ReadResult} (hv : Served h s) (hd : DistinctIds s)
    (hv' : Served h s') (hi : (s.engine.slots i).isLive = true)
    (hslots : s'.engine.slots = Function.update s.engine.slots i
      { s.engine.slots i with state := .consumed }) :
    Served (h ++ [(.read (s.engine.slots i).id buffer, .read result)])
      s' := by
  refine hv'.extend (fun id => not_issues (by simp))
    (fun id he => absurd he (not_performs (by simp))) ?_
  · intro id he
    obtain ⟨_, _, he, -⟩ := he
    injection he with he _
    injection he with hid _
    subst hid
    refine ⟨hv.unread i hi, fun j hj hij => ?_⟩
    by_cases hji : j = i
    · rw [hslots, hji, Function.update_self] at hj
      cases hj
    · rw [hslots, Function.update_of_ne hji] at hj hij
      exact hji (hd.distinct j i (Slot.reusable_of_live hj)
        (Slot.reusable_of_live hi) hij)

/-- A worker calls `Perform` for the slot it claimed. -/
theorem Served.call {s s' : System T} {w : Nat} {i}
    {client : HttpClient T} (hv : Served h s) (ho : Owned s)
    (hd : DistinctIds s) (hw : s.workers[w]? = some (.claimed i))
    (hclient : (s.engine.slots i).client = some client)
    (hslots : s'.engine.slots = s.engine.slots)
    (hworkers : s'.workers = s.workers.set w (.performing
      ⟨i, (s.engine.slots i).id, client, (s.engine.slots i).request⟩
      false)) :
    Served (h ++ [(.perform w, .performing
      ⟨i, (s.engine.slots i).id, client, (s.engine.slots i).request⟩)])
      s' := by
  generalize hcall : (⟨i, (s.engine.slots i).id, client,
    (s.engine.slots i).request⟩ : PerformCall T) = call at hworkers ⊢
  have hcid : call.id = (s.engine.slots i).id := by rw [← hcall]
  have hlt := (List.getElem?_eq_some_iff.mp hw).1
  have hbusy : (s.engine.slots i).isBusy = true :=
    ho.busy w i (slotOf_of_get hw)
  have huse := Slot.reusable_of_busy hbusy
  -- the claim is forgotten first, so that the event finds no claim of its id
  have hother : ∀ (w' : Nat) pc, w' ≠ w →
      (s'.workers[w']? = some pc ↔ s.workers[w']? = some pc) := by
    intro w' pc hne
    rw [hworkers, List.getElem?_set_ne hne.symm]
  have hv₁ : Served h { s with workers := s.workers.set w .started } :=
    hv.frame hv.kept_refl (.set ho (fun _ _ => .refl _) rfl (.free rfl))
  have hv₂ := hv₁.extend (e := (.perform w, .performing call))
    (fun id => not_issues (by simp)) ?_
    (fun id he => absurd he (not_readsOk (by simp)))
  · refine hv₂.frame (hv₂.kept_eq hslots) fun w' pc hw' => ?_
    by_cases hww : w' = w
    · subst hww
      rw [hworkers, List.getElem?_set_self hlt, Option.some.injEq] at hw'
      subst hw'
      refine .begun ?_ ?_
      · rw [hslots, ← hcall]
        exact ⟨rfl, hclient, rfl⟩
      · obtain ⟨d, client', request, start, seed, hl, -⟩ :=
          hv.carries i huse
        rw [← hcid] at hl
        exact ⟨d, _, h.length, hl.snoc (not_issues (by simp)), pos_lt hl.1,
          snoc_new ..⟩
    · refine .same ?_ fun j _ => by
        rw [hslots]
        exact .refl _
      rw [List.getElem?_set_ne (fun h => hww h.symm)]
      exact (hother w' pc hww).mp hw'
  · intro id he
    obtain ⟨_, _, he, rfl⟩ := he
    injection he with _ he
    injection he with he
    subst he
    rw [hcid]
    refine ⟨hv.claimed w i hw, fun j hj hij => ?_, fun w' j hw' hij => ?_⟩
    · have hji := hd.distinct j i (Slot.reusable_of_pending hj) huse hij
      rw [← hji, Slot.busy_of_pending hj] at hbusy
      cases hbusy
    · by_cases hww : w' = w
      · subst hww
        rw [List.getElem?_set_self hlt] at hw'
        cases hw'
      · rw [List.getElem?_set_ne (fun h => hww h.symm)] at hw'
        have hj := slotOf_of_get hw'
        have hji := hd.distinct j i
          (Slot.reusable_of_busy (ho.busy w' j hj)) huse hij
        rw [hji] at hj
        exact hww (ho.unique w' w i hj (slotOf_of_get hw))

theorem Served.effect {s s' : System T} {e : Action T × Answer T}
    (hv : Served h s) (hi : EngineInv s) (heff : Effect s e s') :
    Served (h ++ [e]) s' := by
  have ho := hi.owned
  have hheld := fun j hj => (heff.held j hj).2
  cases heff with
  | quiet he hslots hworkers hcounts =>
      exact (hv.frame (hv.kept_eq hslots) fun w pc hw =>
        .held ho hheld (hworkers ▸ hw)).silent he
  | issued i id client request start seed started hri hid hfresh hslots
      hworkers hidle hlive hrule =>
      exact hv.issue ho hfresh hheld hslots hworkers
  | unissued he i hri hslots hworkers hcounts =>
      exact (hv.frame (hv.kept_update hslots (.reusable rfl)) fun w pc hw =>
        .held ho hheld (hworkers ▸ hw)).silent he
  | consumed i hlive hrun he hslots hworkers hcounts =>
      have hv' := hv.frame (hv.kept_update hslots (.reusable rfl))
        fun w pc hw => .held ho hheld (hworkers ▸ hw)
      rcases he with ⟨buffer, rfl, -, -⟩ | rfl
      · exact hv.readOk hi.distinct hv' hlive hslots
      · exact hv'.silent (silent_other (by simp) (by simp) (by simp))
  | abandoned i hrun hslots hworkers hcounts =>
      refine (hv.frame (hv.kept_update hslots ?_) fun w pc hw =>
        .held ho hheld (hworkers ▸ hw)).silent
        (silent_other (by simp) (by simp) (by simp))
      exact .same ⟨rfl, rfl, rfl⟩ (by simp [Slot.isReusable, hrun])
        (by simp [Slot.isPending]) (by simp [Slot.isLive]) (by simp)
  | cleared n hslots hworkers hcounts =>
      refine (hv.frame (fun i => ?_) (.notify ho hheld
        (broadcast_only hworkers))).silent
        (silent_other (by simp) (by simp) (by simp))
      rw [hslots]
      exact hv.kept_discardAll i
  | claims he w pc i hw hpc hpend hslots hworkers hidle hlive =>
      have hkept : SlotKept h i (s.engine.slots i)
          { s.engine.slots i with state := .running } :=
        .same ⟨rfl, rfl, rfl⟩ (by simp [Slot.isReusable, hpend])
          (by simp [Slot.isPending]) (by simp [Slot.isLive, hpend])
          (by simp)
      refine (hv.frame (hv.kept_update hslots hkept)
        (.set ho hheld hworkers (.claims ?_ ?_))).silent he
      · simp [Slot.isPending, hpend]
      · rw [hslots, Function.update_self]
  | idles he w g hw hnone hslots hworkers =>
      exact (hv.frame (hv.kept_eq hslots)
        (.set ho hheld hworkers (.free rfl))).silent he
  | rewaits he w g n hw hnone hslots hworkers =>
      exact (hv.frame (hv.kept_eq hslots)
        (.set ho hheld hworkers (.free rfl))).silent he
  | leaves w timeout g n hw hnone hslots hworkers =>
      exact (hv.frame (hv.kept_eq hslots)
        (.set ho hheld hworkers (.free rfl))).silent silent_worker
  | calls w i client hw hclient hslots hworkers hcounts =>
      exact hv.call ho hi.distinct hw hclient hslots hworkers
  | observes he w call saw saw' hw hslots hworkers hcounts =>
      obtain ⟨hholds, hb⟩ := hv.performing w call saw hw
      exact (hv.frame (hv.kept_eq hslots) (.set ho hheld hworkers
        (.begun (by rwa [hslots]) hb))).silent he
  | returns w call saw answer hw hslots hworkers hcounts =>
      obtain ⟨hholds, hb⟩ := hv.performing w call saw hw
      have hv' : Served (h ++ [(.performReturn w answer,
          .performReturned call
            (call.client.perform answer call.request {}).1
            (call.client.perform answer call.request {}).2)]) s :=
        hv.silent (silent_other (by simp) (by simp) (by simp))
      exact hv'.frame (hv'.kept_eq hslots) (.set ho hheld hworkers
        (.back (by rwa [hslots]) (hb.returned rfl)))
  | exits he w hw hslots hworkers hcounts =>
      exact (hv.frame (hv.kept_eq hslots)
        (.set ho hheld hworkers (.free rfl))).silent he

/-- The relock puts the outcome of the worker's own call into the slot,
or frees it. -/
theorem Served.finished {s : System T} {w : Nat} {call : PerformCall T}
    {result : Status} {response : HttpResponse} (hv : Served h s)
    (ho : Owned s)
    (hw : s.workers[w]? = some (.performed call result response)) :
    Served h (s.finished w call result response) := by
  obtain ⟨hholds, hr⟩ := hv.performed w call result response hw
  have hbusy : (s.engine.slots call.slot).isBusy = true :=
    ho.busy w _ (slotOf_of_get hw)
  refine hv.frame (hv.kept_update (finished_slots ..) ?_)
    fun w' pc hw' => ?_
  · unfold finishedSlot
    split
    · exact .reusable rfl
    · rename_i hne
      refine .same ⟨rfl, rfl, rfl⟩ (Slot.reusable_of_busy hbusy)
        (by simp [Slot.isPending]) ?_ fun _ => ⟨w, call, rfl, hholds, hr⟩
      unfold Slot.isBusy at hbusy
      unfold Slot.isLive
      cases hs : (s.engine.slots call.slot).state <;> simp [hs] at hbusy hne ⊢
  · cases hslot : pc.slot? with
    | none => exact .free hslot
    | some i =>
        refine .same (ho.kept_finished hw hw' hslot).1 fun j hj => ?_
        rw [(ho.kept_finished hw hw' hj).2]
        exact .refl _

theorem Served.reach {s : System T} (hr : AsyncReach T h s) :
    Served h s := by
  refine hr.invariant (P := fun h s => Served h s) ?_ ?_
  · intro s heq
    subst heq
    refine ⟨?_, ?_, ?_, ?_, ?_, ?_, ?_, fun id => .nil, fun id => .nil⟩
    · intro i hi
      cases hi
    · intro i hi
      cases hi
    · intro w i hw
      simp at hw
    · intro w call saw hw
      simp at hw
    · intro w call result response hw
      simp at hw
    · intro i hi
      cases hi
    · intro i hi
      cases hi
  · intro h s a b s' hr hv hst
    have hi := EngineInv.reach hr
    rcases step_effect hst with
      heff | ⟨w, call, result, response, rfl, hw, heff⟩
    · exact hv.effect hi heff
    · exact (hv.finished hi.owned hw).effect (hi.finished hw) heff

end RestifyCapl.Http
