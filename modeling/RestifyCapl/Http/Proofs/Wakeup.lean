/-
No lost wakeup. Every step that ends a request's waiting (publication,
Discard, DiscardAll) broadcasts on `slotChanged_` in the same critical
section, so a caller of Await who was not notified since its last look at
the slots waits for a request that is still Pending or Running, and it is
the same request: its last Dispatch came before that look. The workers'
half of the story is `Notified`.

`AwaitStep` says once what a step does to the callers inside Await; the
invariant `Parked` is carried through its cases.
-/
import RestifyCapl.Http.Proofs.Lifecycle

namespace RestifyCapl.Http

open Lib
open AsyncEngine

variable {T : Type} {h : List (Action T × Answer T)}

-- ============================================================= open slots

/-- Pending or Running: the request of the slot is still to be answered. -/
def Slot.isOpen (s : Slot T) : Bool :=
  s.state == .pending || s.state == .running

theorem Slot.live_of_open {a : Slot T} (ha : a.isOpen = true) :
    a.isLive = true := by
  unfold Slot.isOpen at ha
  unfold Slot.isLive
  rw [ha]
  rfl

/-- A slot that is open and stays so keeps its request. -/
def KeepsOpen (s s' : System T) : Prop :=
  ∀ i, (s.engine.slots i).isOpen = true →
    (s'.engine.slots i).isOpen = true
      ∧ (s'.engine.slots i).id = (s.engine.slots i).id

theorem KeepsOpen.of_slots {s s' : System T}
    (hslots : s'.engine.slots = s.engine.slots) : KeepsOpen s s' := by
  intro i hi
  rw [hslots]
  exact ⟨hi, rfl⟩

/-- Writing one slot keeps the open ones, if that slot was not open. -/
theorem KeepsOpen.of_update {s s' : System T} {i} {a : Slot T}
    (hslots : s'.engine.slots = Function.update s.engine.slots i a)
    (hi : (s.engine.slots i).isOpen = false) : KeepsOpen s s' := by
  intro j hj
  have hji : j ≠ i := by
    rintro rfl
    rw [hi] at hj
    cases hj
  rw [hslots, Function.update_of_ne hji]
  exact ⟨hj, rfl⟩

theorem Slot.open_of_reusable {a : Slot T} (ha : a.isReusable = true) :
    a.isOpen = false := by
  unfold Slot.isReusable at ha
  unfold Slot.isOpen
  cases hs : a.state <;> simp [hs] at ha ⊢

/-- Of all effects, only the two discards close a request. -/
theorem Effect.keepsOpen {s s' : System T} {e : Action T × Answer T}
    (heff : Effect s e s') (hdiscard : ∀ id, e ≠ (.discard id, .discarded .ok))
    (hall : ∀ n, e ≠ (.discardAll, .discardedAll .ok n)) :
    KeepsOpen s s' := by
  cases heff with
  | issued i _ _ _ _ _ _ hi _ _ hslots | unissued _ i hi hslots =>
      exact .of_update hslots (Slot.open_of_reusable hi)
  | consumed i _ _ he hslots =>
      rcases he with ⟨buffer, -, -, hc⟩ | he
      · exact .of_update hslots (by simp [Slot.isOpen, hc])
      · exact absurd he (hdiscard _)
  | abandoned => exact absurd rfl (hdiscard _)
  | cleared n => exact absurd rfl (hall n)
  | claims _ _ _ i _ _ hi hslots =>
      intro j hj
      rw [hslots]
      by_cases hji : j = i
      · subst hji
        rw [Function.update_self]
        exact ⟨rfl, rfl⟩
      · rw [Function.update_of_ne hji]
        exact ⟨hj, rfl⟩
  | quiet _ hslots | idles _ _ _ _ _ hslots | rewaits _ _ _ _ _ _ hslots
  | leaves _ _ _ _ _ _ hslots | calls _ _ _ _ _ hslots
  | observes _ _ _ _ _ _ hslots | returns _ _ _ _ _ hslots
  | exits _ _ _ hslots => exact .of_slots hslots

-- ================================================= what a step does to waits

/-- A call of Await that went to wait. -/
def OpensWait (e : Action T × Answer T) : Bool :=
  match e with
  | (.await _ _, .awaiting) => true
  | _ => false

/-- A look at the slots by the caller of wait `k`, after its first. -/
def Rechecks (k : Nat) (e : Action T × Answer T) : Prop :=
  ∃ timeout, e.1 = .awaitWake k timeout

/-- What a step does to the callers inside Await. -/
inductive AwaitStep (s : System T) : Action T × Answer T → System T → Prop
  | stands {e s'} (hawaiters : s'.awaiters = s.awaiters)
      (hnew : OpensWait e = false) (hcheck : ∀ k, ¬ Rechecks k e)
      (hopen : KeepsOpen s s') : AwaitStep s e s'
  | broadcast {e s'} (hawaiters : s'.awaiters = notifyAwaiters s.awaiters)
      (hnew : OpensWait e = false) : AwaitStep s e s'
  | waits {s'} (id waitTimeoutMs timeoutMs : UInt32)
      (hopen : ∃ i, (s.engine.slots i).id = id
        ∧ (s.engine.slots i).isOpen = true)
      (hawaiters : s'.awaiters
        = s.awaiters ++ [.waiting id timeoutMs false])
      (hengine : s'.engine = s.engine) :
      AwaitStep s (.await id waitTimeoutMs, .awaiting) s'
  | rewaits {s'} (k : Nat) (timeout n : Bool) (id timeoutMs : UInt32)
      (hk : s.awaiters[k]? = some (.waiting id timeoutMs n))
      (hopen : ∃ i, (s.engine.slots i).id = id
        ∧ (s.engine.slots i).isOpen = true)
      (hawaiters : s'.awaiters
        = s.awaiters.set k (.waiting id timeoutMs false))
      (hengine : s'.engine = s.engine) :
      AwaitStep s (.awaitWake k timeout, .awaiting) s'
  | returns {s'} (k : Nat) (timeout n : Bool) (id timeoutMs : UInt32)
      (status : Status)
      (hk : s.awaiters[k]? = some (.waiting id timeoutMs n))
      (hawaiters : s'.awaiters = s.awaiters.set k (.returned status))
      (hengine : s'.engine = s.engine) :
      AwaitStep s (.awaitWake k timeout, .awaited status) s'

-- ================================================ what Await tells its caller

/-- What a status of Await means in the state it was decided in. -/
inductive AwaitTells (e : AsyncEngine T) (id : UInt32) : Status → Prop
  | ok (i) (hid : (e.slots i).id = id)
      (hstate : (e.slots i).state = .complete) : AwaitTells e id .ok
  | unknownRequestId
      (hgone : ∀ i, (e.slots i).isLive = true → (e.slots i).id ≠ id) :
      AwaitTells e id .unknownRequestId
  | waitTimeout (i) (hid : (e.slots i).id = id)
      (hopen : (e.slots i).isOpen = true) : AwaitTells e id .waitTimeout

/-- The slot found live is Complete or open. -/
theorem open_of_found {e : AsyncEngine T} {id : UInt32} {i}
    (hfind : e.findLiveSlotLocked id = some i)
    (hc : (e.slots i).state ≠ .complete) :
    (e.slots i).id = id ∧ (e.slots i).isOpen = true := by
  obtain ⟨hid, hlive⟩ := findLiveSlotLocked_some hfind
  refine ⟨hid, ?_⟩
  unfold Slot.isLive at hlive
  unfold Slot.isOpen
  cases hs : (e.slots i).state <;> simp [hs] at hlive hc ⊢

theorem gone_of_none {s : System T} (hd : DistinctIds s) {id : UInt32}
    (hfind : s.engine.findLiveSlotLocked id = none) (i)
    (hi : (s.engine.slots i).isLive = true) :
    (s.engine.slots i).id ≠ id := by
  rintro rfl
  rw [findLiveSlotLocked_of_live hd hi] at hfind
  cases hfind

/-- Await's look before its first wait. -/
theorem await_cases {s : System T} (hd : DistinctIds s) (id ms : UInt32) :
    (∃ status, s.engine.await id ms = .inl status
        ∧ AwaitTells s.engine id status)
      ∨ ∃ timeoutMs, s.engine.await id ms = .inr timeoutMs
        ∧ ∃ i, (s.engine.slots i).id = id
          ∧ (s.engine.slots i).isOpen = true := by
  unfold AsyncEngine.await
  cases hfind : s.engine.findLiveSlotLocked id with
  | none =>
      exact Or.inl ⟨_, rfl, .unknownRequestId (gone_of_none hd hfind)⟩
  | some i =>
      dsimp only
      by_cases hc : (s.engine.slots i).state = .complete
      · rw [if_pos hc]
        exact Or.inl ⟨_, rfl, .ok i (findLiveSlotLocked_some hfind).1 hc⟩
      · rw [if_neg hc]
        have hopen := open_of_found hfind hc
        refine Or.inr ?_
        split_ifs <;> exact ⟨_, rfl, i, hopen⟩

/-- Await's look after each wait. -/
theorem awaitCheck_cases {s : System T} (hd : DistinctIds s)
    (id : UInt32) (timeout : Bool) :
    (∃ status, s.engine.awaitCheck id timeout = some status
        ∧ AwaitTells s.engine id status)
      ∨ s.engine.awaitCheck id timeout = none
        ∧ ∃ i, (s.engine.slots i).id = id
          ∧ (s.engine.slots i).isOpen = true := by
  unfold awaitCheck
  cases hfind : s.engine.findLiveSlotLocked id with
  | none =>
      exact Or.inl ⟨_, rfl, .unknownRequestId (gone_of_none hd hfind)⟩
  | some i =>
      dsimp only
      by_cases hc : (s.engine.slots i).state = .complete
      · rw [if_pos hc]
        exact Or.inl ⟨_, rfl, .ok i (findLiveSlotLocked_some hfind).1 hc⟩
      · rw [if_neg hc]
        obtain ⟨hid, hopen⟩ := open_of_found hfind hc
        cases timeout with
        | true => exact Or.inl ⟨_, rfl, .waitTimeout i hid hopen⟩
        | false => exact Or.inr ⟨rfl, i, hid, hopen⟩

-- ================================================================ the step

/-- Discard broadcasts, or changes nothing. -/
theorem discard_step {s s' : System T} {id : UInt32} {b : Answer T}
    (hst : s.step (.discard id) = some (b, s')) :
    AwaitStep s (.discard id, b) s' := by
  simp only [System.step, Option.some.injEq, Prod.mk.injEq] at hst
  obtain ⟨rfl, rfl⟩ := hst
  by_cases hok : (s.engine.discard id).1 = .ok
  · exact .broadcast (by simp [hok]) rfl
  · refine .stands (by simp [hok]) rfl (by simp [Rechecks])
      (.of_slots ?_)
    unfold AsyncEngine.discard at hok ⊢
    cases hfind : s.engine.findLiveSlotLocked id with
    | none => rfl
    | some i => simp [hfind] at hok

theorem await_step {s s' : System T} (hd : DistinctIds s)
    {id ms : UInt32} {b : Answer T}
    (hst : s.step (.await id ms) = some (b, s')) :
    AwaitStep s (.await id ms, b) s' := by
  unfold System.step at hst
  rcases await_cases hd id ms with
    ⟨status, heq, -⟩ | ⟨timeoutMs, heq, hopen⟩
  · simp only [heq, Option.some.injEq, Prod.mk.injEq] at hst
    obtain ⟨rfl, rfl⟩ := hst
    exact .stands rfl rfl (by simp [Rechecks]) (.of_slots rfl)
  · simp only [heq, Option.some.injEq, Prod.mk.injEq] at hst
    obtain ⟨rfl, rfl⟩ := hst
    exact .waits id ms timeoutMs hopen rfl rfl

theorem awaitWake_step {s s' : System T} (hd : DistinctIds s) {k : Nat}
    {timeout : Bool} {b : Answer T}
    (hst : s.step (.awaitWake k timeout) = some (b, s')) :
    AwaitStep s (.awaitWake k timeout, b) s' := by
  unfold System.step at hst
  cases hk : s.awaiters[k]? with
  | none => simp [hk] at hst
  | some w =>
      cases w with
      | returned status => simp [hk] at hst
      | waiting id ms n =>
          simp only [hk] at hst
          rcases awaitCheck_cases hd id timeout with
            ⟨status, heq, -⟩ | ⟨heq, hopen⟩
          · simp only [heq, Option.some.injEq, Prod.mk.injEq] at hst
            obtain ⟨rfl, rfl⟩ := hst
            exact .returns k timeout n id ms status hk rfl rfl
          · simp only [heq, Option.some.injEq, Prod.mk.injEq] at hst
            obtain ⟨rfl, rfl⟩ := hst
            exact .rewaits k timeout n id ms hk hopen rfl rfl

/-- The steps of the other callers and of the workers leave the callers
inside Await as they are; only the relock broadcasts. -/
theorem other_awaiters {s s' : System T} {a : Action T} {b : Answer T}
    (hst : s.step a = some (b, s')) (hawait : ∀ id ms, a ≠ .await id ms)
    (hwake : ∀ k timeout, a ≠ .awaitWake k timeout)
    (hdiscard : ∀ id, a ≠ .discard id) (hall : a ≠ .discardAll)
    (hrelock : ∀ w, a ≠ .relock w) : s'.awaiters = s.awaiters := by
  unfold System.step at hst
  cases a with
  | await id ms => exact absurd rfl (hawait id ms)
  | awaitWake k timeout => exact absurd rfl (hwake k timeout)
  | discard id => exact absurd rfl (hdiscard id)
  | discardAll => exact absurd rfl hall
  | relock w => exact absurd rfl (hrelock w)
  | dispatch client request start seed =>
      dsimp only at hst
      split at hst
      next => cases hst
      next =>
        injection hst with hst
        injection hst with _ hs
        rw [← hs]
  | poll id | read id buffer =>
      injection hst with hst
      injection hst with _ hs
      rw [← hs]
  | firstLock w | wake w timeout | observeCancel w
  | performReturn w answer | exitThread w =>
      dsimp only at hst
      split at hst
      next =>
        injection hst with hst
        injection hst with _ hs
        rw [← hs]
      next => cases hst
  | perform w =>
      dsimp only at hst
      split at hst
      next =>
        split at hst
        next => cases hst
        next =>
          injection hst with hst
          injection hst with _ hs
          rw [← hs]
      next => cases hst

theorem relock_awaiters {s s' : System T} {w : Nat} {b : Answer T}
    (hst : s.step (.relock w) = some (b, s')) :
    s'.awaiters = notifyAwaiters s.awaiters := by
  unfold System.step at hst
  dsimp only at hst
  split at hst
  next =>
    injection hst with hst
    injection hst with _ hs
    rw [← hs]
    rfl
  next => cases hst

theorem step_awaits {s s' : System T} (hd : DistinctIds s) {a : Action T}
    {b : Answer T} (hst : s.step a = some (b, s')) :
    AwaitStep s (a, b) s' := by
  have hother : (∀ id ms, a ≠ .await id ms) →
      (∀ k timeout, a ≠ .awaitWake k timeout) →
      (∀ id, a ≠ .discard id) → a ≠ .discardAll → (∀ w, a ≠ .relock w) →
      AwaitStep s (a, b) s' := by
    intro hawait hwake hdiscard hall hrelock
    have hsame := other_awaiters hst hawait hwake hdiscard hall hrelock
    rcases step_effect hst with heff | ⟨w, _, _, _, rfl, -⟩
    · refine .stands hsame ?_ ?_ (heff.keepsOpen ?_ ?_)
      · unfold OpensWait
        split
        next id ms he =>
          injection he with ha
          exact absurd ha (hawait id ms)
        next => rfl
      · rintro k ⟨timeout, ha⟩
        exact hwake k timeout ha
      · intro id he
        injection he with ha
        exact hdiscard id ha
      · intro n he
        injection he with ha
        exact hall ha
    · exact absurd rfl (hrelock w)
  cases a with
  | await id ms => exact await_step hd hst
  | awaitWake k timeout => exact awaitWake_step hd hst
  | discard id => exact discard_step hst
  | discardAll =>
      injection hst with hst
      injection hst with hb hs
      subst hb hs
      exact .broadcast rfl rfl
  | relock w =>
      refine .broadcast (relock_awaiters hst) ?_
      rfl
  | _ => exact hother (by simp) (by simp) (by simp) (by simp) (by simp)

-- ============================================================ the invariant

/-- Position `c` is the last look at the slots by the caller of wait `k`:
the Await of `id` that began the `k`-th wait, or a later recheck. -/
def LastLook (h : List (Action T × Answer T)) (k : Nat) (id : UInt32)
    (c : Nat) : Prop :=
  ((∃ ms, h[c]? = some (.await id ms, .awaiting)
        ∧ (h.take c).countP OpensWait = k)
      ∨ ∃ timeout, h[c]? = some (.awaitWake k timeout, .awaiting))
    ∧ ∀ (m : Nat) e, c < m → h[m]? = some e → ¬ Rechecks k e

/-- The request under `id` is open, and its last Dispatch came before
position `c`. -/
def OpenBefore (h : List (Action T × Answer T)) (s : System T)
    (id : UInt32) (c : Nat) : Prop :=
  ∃ i d e, (s.engine.slots i).id = id ∧ (s.engine.slots i).isOpen = true
    ∧ Latest (Issues id) h d e ∧ d < c

structure Parked (h : List (Action T × Answer T)) (s : System T) :
    Prop where
  numbered : h.countP OpensWait = s.awaiters.length
  waits : ∀ (k : Nat) id ms, s.awaiters[k]? = some (.waiting id ms false) →
    ∃ c, LastLook h k id c ∧ OpenBefore h s id c

theorem LastLook.snoc {k : Nat} {id : UInt32} {c : Nat}
    {e : Action T × Answer T} (hl : LastLook h k id c)
    (he : ¬ Rechecks k e) : LastLook (h ++ [e]) k id c := by
  obtain ⟨hc, hlast⟩ := hl
  refine ⟨?_, fun m e' hm hget => ?_⟩
  · rcases hc with ⟨ms, hget, hcount⟩ | ⟨timeout, hget⟩
    · refine Or.inl ⟨ms, snoc_old hget, ?_⟩
      rwa [List.take_append_of_le_length (Nat.le_of_lt (pos_lt hget))]
    · exact Or.inr ⟨timeout, snoc_old hget⟩
  · rcases snoc_cases hget with ⟨hold, -⟩ | ⟨-, rfl⟩
    · exact hlast m e' hm hold
    · exact he

/-- The event that has just happened is the last of its kind. -/
theorem LastLook.new {k : Nat} {id : UInt32} {e : Action T × Answer T}
    (he : (∃ ms, e = (.await id ms, .awaiting))
          ∧ h.countP OpensWait = k
        ∨ ∃ timeout, e = (.awaitWake k timeout, .awaiting)) :
    LastLook (h ++ [e]) k id h.length := by
  refine ⟨?_, fun m e' hm hget => ?_⟩
  · rcases he with ⟨⟨ms, rfl⟩, hcount⟩ | ⟨timeout, rfl⟩
    · refine Or.inl ⟨ms, snoc_new h _, ?_⟩
      rwa [List.take_left']
      rfl
    · exact Or.inr ⟨timeout, snoc_new h _⟩
  · have hlt := pos_lt hget
    rw [List.length_append, List.length_singleton] at hlt
    omega

/-- A live id is not issued by the next step. -/
theorem not_issued_of_live {s s' : System T} (hd : DistinctIds s)
    {a : Action T} {b : Answer T} (hst : s.step a = some (b, s')) {i}
    (hi : (s.engine.slots i).isLive = true) :
    ¬ Issues (s.engine.slots i).id (a, b) := by
  rintro ⟨client, request, start, seed, he⟩
  injection he with ha hb
  subst ha hb
  have hgone := issue_gone hst
  rw [phase_of_live hd hi] at hgone
  split at hgone <;> cases hgone

theorem OpenBefore.snoc {s s' : System T} {id : UInt32} {c : Nat}
    {a : Action T} {b : Answer T} (ho : OpenBefore h s id c)
    (hd : DistinctIds s) (hst : s.step a = some (b, s'))
    (hkeep : KeepsOpen s s') : OpenBefore (h ++ [(a, b)]) s' id c := by
  obtain ⟨i, d, e, rfl, hopen, hl, hdc⟩ := ho
  obtain ⟨hopen', hid⟩ := hkeep i hopen
  exact ⟨i, d, e, hid, hopen',
    hl.snoc (not_issued_of_live hd hst (Slot.live_of_open hopen)), hdc⟩

/-- An open request was dispatched before now. -/
theorem OpenBefore.new {s s' : System T} {id : UInt32} {a : Action T}
    {b : Answer T} (hv : Served h s) (hd : DistinctIds s)
    (hst : s.step a = some (b, s')) (hengine : s'.engine = s.engine)
    (hopen : ∃ i, (s.engine.slots i).id = id
      ∧ (s.engine.slots i).isOpen = true) :
    OpenBefore (h ++ [(a, b)]) s' id h.length := by
  obtain ⟨i, rfl, hopen⟩ := hopen
  have hlive := Slot.live_of_open hopen
  obtain ⟨d, _, _, _, _, hl, -⟩ := hv.carries i (Slot.reusable_of_live hlive)
  refine ⟨i, d, _, by rw [hengine], by rw [hengine]; exact hopen,
    hl.snoc (not_issued_of_live hd hst hlive), pos_lt hl.1⟩

theorem Parked.step {s s' : System T} {a : Action T} {b : Answer T}
    (hp : Parked h s) (hv : Served h s) (hd : DistinctIds s)
    (hst : s.step a = some (b, s')) : Parked (h ++ [(a, b)]) s' := by
  have hnumbered : ∀ {s' : System T}, OpensWait (a, b) = false →
      s'.awaiters.length = s.awaiters.length →
      (h ++ [(a, b)]).countP OpensWait = s'.awaiters.length := by
    intro s' hnew hlen
    simp [hnew, hp.numbered, hlen]
  -- a wait that was there before, and has not been looked at
  have hold : ∀ {k : Nat} {id ms}, s.awaiters[k]?
        = some (.waiting id ms false) → ¬ Rechecks k (a, b) →
      KeepsOpen s s' →
      ∃ c, LastLook (h ++ [(a, b)]) k id c
        ∧ OpenBefore (h ++ [(a, b)]) s' id c := by
    intro k id ms hk hcheck hkeep
    obtain ⟨c, hl, hopen⟩ := hp.waits k id ms hk
    exact ⟨c, hl.snoc hcheck, hopen.snoc hd hst hkeep⟩
  generalize he : (a, b) = e at hnumbered hold ⊢
  have haw := step_awaits hd hst
  rw [he] at haw
  cases haw with
  | stands hawaiters hnew hcheck hopen =>
      refine ⟨hnumbered hnew (by rw [hawaiters]), fun k id ms hk => ?_⟩
      rw [hawaiters] at hk
      exact hold hk (hcheck k) hopen
  | broadcast hawaiters hnew =>
      refine ⟨hnumbered hnew ?_, fun k id ms hk => ?_⟩
      · rw [hawaiters, notifyAwaiters, List.length_map]
      · -- nobody is left un-notified
        rw [hawaiters, notifyAwaiters, List.getElem?_map] at hk
        obtain ⟨w, -, hw⟩ := Option.map_eq_some_iff.mp hk
        cases w <;> cases hw
  | waits id waitMs timeoutMs hopen hawaiters hengine =>
      refine ⟨?_, fun k id' ms hk => ?_⟩
      · simp [OpensWait, hp.numbered, hawaiters]
      · rw [hawaiters] at hk
        rcases snoc_cases hk with ⟨hk, -⟩ | ⟨rfl, hw⟩
        · exact hold hk (by simp [Rechecks])
            (.of_slots (by rw [hengine]))
        · injection hw with hid
          subst hid
          refine ⟨h.length, .new (Or.inl ⟨⟨waitMs, rfl⟩, hp.numbered⟩), ?_⟩
          rw [← he]
          exact .new hv hd hst hengine hopen
  | rewaits k₀ timeout n id timeoutMs hk₀ hopen hawaiters hengine =>
      refine ⟨hnumbered rfl (by simp [hawaiters]), fun k id' ms hk => ?_⟩
      rw [hawaiters] at hk
      by_cases hkk : k = k₀
      · subst hkk
        rw [List.getElem?_set_self (pos_lt hk₀), Option.some.injEq] at hk
        injection hk with hid
        subst hid
        refine ⟨h.length, .new (Or.inr ⟨timeout, rfl⟩), ?_⟩
        rw [← he]
        exact .new hv hd hst hengine hopen
      · rw [List.getElem?_set_ne (Ne.symm hkk)] at hk
        exact hold hk (by simpa [Rechecks] using Ne.symm hkk)
          (.of_slots (by rw [hengine]))
  | returns k₀ timeout n id timeoutMs status hk₀ hawaiters hengine =>
      refine ⟨hnumbered rfl (by simp [hawaiters]), fun k id' ms hk => ?_⟩
      rw [hawaiters] at hk
      by_cases hkk : k = k₀
      · subst hkk
        rw [List.getElem?_set_self (pos_lt hk₀), Option.some.injEq] at hk
        cases hk
      · rw [List.getElem?_set_ne (Ne.symm hkk)] at hk
        exact hold hk (by simpa [Rechecks] using Ne.symm hkk)
          (.of_slots (by rw [hengine]))

theorem Parked.reach {s : System T} (hr : AsyncReach T h s) :
    Parked h s := by
  refine hr.invariant (P := fun h s => Parked h s) ?_ ?_
  · intro s heq
    subst heq
    exact ⟨rfl, fun k id ms hk => by simp at hk⟩
  · intro h s a b s' hr hp hst
    exact hp.step (Served.reach hr) (EngineInv.reach hr).distinct hst

-- =============================================================== the result

/-- The id whose slot a step of Await looks up. -/
def LooksUp (s : System T) (id : UInt32) (a : Action T) : Prop :=
  (∃ ms, a = .await id ms)
    ∨ ∃ k timeout ms n, a = .awaitWake k timeout
      ∧ s.awaiters[k]? = some (.waiting id ms n)

theorem await_tells {s s' : System T} (hd : DistinctIds s) {a : Action T}
    {id : UInt32} {status : Status} (ha : LooksUp s id a)
    (hst : s.step a = some (.awaited status, s')) :
    AwaitTells s.engine id status ∧ s'.engine = s.engine := by
  rcases ha with ⟨ms, rfl⟩ | ⟨k, timeout, ms, n, rfl, hk⟩
  · unfold System.step at hst
    rcases await_cases hd id ms with ⟨status', heq, htells⟩ | ⟨_, heq, -⟩
    · simp only [heq, Option.some.injEq, Prod.mk.injEq,
        Answer.awaited.injEq] at hst
      obtain ⟨rfl, rfl⟩ := hst
      exact ⟨htells, rfl⟩
    · simp [heq] at hst
  · unfold System.step at hst
    simp only [hk] at hst
    rcases awaitCheck_cases hd id timeout with
      ⟨status', heq, htells⟩ | ⟨heq, -⟩
    · simp only [heq, Option.some.injEq, Prod.mk.injEq,
        Answer.awaited.injEq] at hst
      obtain ⟨rfl, rfl⟩ := hst
      exact ⟨htells, rfl⟩
    · simp [heq] at hst

/-- No lost wakeup. A caller inside Await who was not notified since its
last look at the slots waits for a request that is still Pending or
Running, under the Dispatch that was the last one at that look; a worker
in the idle wait that was not notified leaves no slot Pending; and what
Await returns holds in the state it is decided in. -/
theorem no_lost_wakeup {s : System T} (hr : AsyncReach T h s) :
    (∀ (k : Nat) id ms, s.awaiters[k]? = some (.waiting id ms false) →
      ∃ i c d client request start seed,
        (s.engine.slots i).id = id
        ∧ ((s.engine.slots i).state = .pending
          ∨ (s.engine.slots i).state = .running)
        ∧ LastLook h k id c ∧ d < c
        ∧ Latest (Issues id) h d
          (.dispatch client request start seed, .dispatched .ok id)
        ∧ (s.engine.slots i).client = some client
        ∧ (s.engine.slots i).request
          = { request with cancelFlag := some i.val })
      ∧ (∀ (w : Nat) g, s.workers[w]? = some (.waiting g false) →
        ∀ i, (s.engine.slots i).state ≠ .pending)
      ∧ ∀ a id status s', LooksUp s id a →
        s.step a = some (.awaited status, s') →
        AwaitTells s.engine id status ∧ s'.engine = s.engine := by
  have hd := (EngineInv.reach hr).distinct
  refine ⟨fun k id ms hk => ?_, fun w g hw i hi => ?_,
    fun a id status s' ha hst => await_tells hd ha hst⟩
  · obtain ⟨c, hlook, i, d, e, rfl, hopen, hl, hdc⟩ :=
      (Parked.reach hr).waits k id ms hk
    obtain ⟨d', client, request, start, seed, hl', hclient, hrequest⟩ :=
      (Served.reach hr).carries i
        (Slot.reusable_of_live (Slot.live_of_open hopen))
    obtain ⟨rfl, -⟩ := hl.unique hl'
    exact ⟨i, c, d, client, request, start, seed, rfl,
      by simpa [Slot.isOpen] using hopen, hlook, hdc, hl', hclient,
      hrequest⟩
  · have := Notified.reach hr ⟨i, by simp [Slot.isPending, hi]⟩ w g false hw
    cases this

/-- A caller that waits for a request no worker has claimed yet. -/
def parked : List (Action Unit) :=
  [.dispatch ⟨()⟩ { url := [104] } ⟨true, true⟩ 7, .await 7 0]

theorem parked_runs :
    ((asyncMachine Unit).exec {} parked).isSome = true := by
  decide

theorem no_lost_wakeup_parked :
    ∃ i, ((((asyncMachine Unit).exec {} parked).get
        parked_runs).2.engine.slots i).id = 7
      ∧ (((((asyncMachine Unit).exec {} parked).get
          parked_runs).2.engine.slots i).state = .pending
        ∨ ((((asyncMachine Unit).exec {} parked).get
          parked_runs).2.engine.slots i).state = .running) := by
  obtain ⟨i, _, _, _, _, _, _, hid, hstate, -⟩ :=
    (no_lost_wakeup (.of_exec rfl parked_runs)).1 0 7 30000
      (by decide)
  exact ⟨i, hid, hstate⟩

end RestifyCapl.Http
