/-
The life of a request id, as Poll tells it: waiting, then ready, then
gone. A step other than a Dispatch that issues the id never goes back in
this order, because no slot comes to be live under an id but by being
issued, and a Complete slot stays Complete as long as it is live. Ready
ends in three ways only, and a Read that could not hand over the body is
not one of them.
-/
import RestifyCapl.Http.Proofs.Integrity

namespace RestifyCapl.Http

open Lib
open AsyncEngine

variable {T : Type} {h : List (Action T × Answer T)}

-- ============================================================= the phases

inductive Phase where
  | waiting
  | ready
  | gone
deriving DecidableEq, Repr

/-- The order in time. -/
def Phase.rank : Phase → Nat
  | .waiting => 0
  | .ready => 1
  | .gone => 2

/-- What Poll says in each phase. -/
def Phase.poll : Phase → Status × Int32
  | .waiting => (.ok, 1)
  | .ready => (.ok, 2)
  | .gone => (.unknownRequestId, 0)

/-- The phase an id is in. -/
def AsyncEngine.phase (e : AsyncEngine T) (id : UInt32) : Phase :=
  match e.findLiveSlotLocked id with
  | none => .gone
  | some i => if (e.slots i).state = .complete then .ready else .waiting

/-- The three ways Ready ends. -/
def Ends (id : UInt32) (e : Action T × Answer T) : Prop :=
  ReadsOk id e ∨ e = (.discard id, .discarded .ok)
    ∨ ∃ n, e = (.discardAll, .discardedAll .ok n)

theorem poll_phase (e : AsyncEngine T) (id : UInt32) :
    e.poll id = (e.phase id).poll := by
  unfold AsyncEngine.poll AsyncEngine.phase
  cases e.findLiveSlotLocked id with
  | none => rfl
  | some i =>
      dsimp only
      split <;> rfl

theorem Phase.poll_inj {p p' : Phase} (h : p.poll = p'.poll) : p = p' := by
  cases p <;> cases p' <;> first | rfl | (exact absurd h (by decide))

/-- Read says RequestNotComplete in the first phase and in no other. -/
theorem read_notComplete_iff (e : AsyncEngine T) (id : UInt32)
    (buffer : CharBuffer) :
    (e.read id buffer).1.status = .requestNotComplete
      ↔ e.phase id = .waiting := by
  unfold AsyncEngine.phase
  rcases read_cases e id buffer with
    ⟨hfind, hr⟩ | ⟨i, hfind, ⟨hc, hr⟩ | ⟨hc, hr, -⟩⟩
  · simp [hr, hfind]
  · simp [hr, hfind, hc]
  · simp [hr, hfind, hc, (readSlot_status (e.slots i) buffer).2]

-- ================================================== phases by the slots

theorem findLiveSlotLocked_of_live {s : System T} (hd : DistinctIds s) {i}
    (hi : (s.engine.slots i).isLive = true) :
    s.engine.findLiveSlotLocked (s.engine.slots i).id = some i := by
  have huse := Slot.reusable_of_live hi
  unfold findLiveSlotLocked
  rw [if_neg (hd.nonzero i huse)]
  refine findFirst_unique (by simp [hi]) fun j hj => ?_
  rw [Bool.and_eq_true, beq_iff_eq] at hj
  exact hd.distinct j i (Slot.reusable_of_live hj.2) huse hj.1

/-- A live slot tells the phase of its id. -/
theorem phase_of_live {s : System T} (hd : DistinctIds s) {i}
    (hi : (s.engine.slots i).isLive = true) :
    s.engine.phase (s.engine.slots i).id
      = if (s.engine.slots i).state = .complete then .ready
        else .waiting := by
  unfold AsyncEngine.phase
  rw [findLiveSlotLocked_of_live hd hi]

/-- An id that is not gone has a live slot. -/
theorem live_of_phase {e : AsyncEngine T} {id : UInt32}
    (hp : e.phase id ≠ .gone) :
    ∃ i, (e.slots i).id = id ∧ (e.slots i).isLive = true := by
  unfold AsyncEngine.phase at hp
  cases hfind : e.findLiveSlotLocked id with
  | none =>
      rw [hfind] at hp
      exact absurd rfl hp
  | some i => exact ⟨i, findLiveSlotLocked_some hfind⟩

-- ============================================================== the step

/-- A slot that is live after a step that does not issue its id was live
before it, under the same id, and Complete if it was Complete. -/
def KeptLive (a a' : Slot T) : Prop :=
  a'.isLive = true →
    a.isLive = true ∧ a'.id = a.id
      ∧ (a.state = .complete → a'.state = .complete)

theorem KeptLive.refl (a : Slot T) : KeptLive a a :=
  fun hl => ⟨hl, rfl, id⟩

theorem keptLive_update {t : Fin kAsyncRequestSlotCount → Slot T} {i}
    {a : Slot T} (ha : KeptLive (t i) a) (j) :
    KeptLive (t j) (Function.update t i a j) := by
  by_cases hji : j = i
  · subst hji
    rwa [Function.update_self]
  · rw [Function.update_of_ne hji]
    exact .refl _

theorem Effect.keptLive {s s' : System T} {e : Action T × Answer T}
    (heff : Effect s e s') (j)
    (hissue : ¬ Issues (s'.engine.slots j).id e) :
    KeptLive (s.engine.slots j) (s'.engine.slots j) := by
  cases heff with
  | issued i id client request start seed _ _ _ _ hslots =>
      by_cases hji : j = i
      · subst hji
        refine absurd ⟨client, request, start, seed, ?_⟩ hissue
        rw [hslots, Function.update_self]
        rfl
      · rw [hslots, Function.update_of_ne hji]
        exact .refl _
  | unissued _ i _ hslots =>
      rw [hslots]
      exact keptLive_update (fun hl => by cases hl) j
  | consumed i _ _ _ hslots =>
      rw [hslots]
      exact keptLive_update (fun hl => by cases hl) j
  | abandoned i _ hslots =>
      rw [hslots]
      exact keptLive_update (fun hl => by cases hl) j
  | cleared n hslots =>
      rw [hslots]
      unfold discardAllSlot KeptLive
      cases hs : (s.engine.slots j).state <;> simp [Slot.isLive, hs]
  | claims _ _ _ i _ _ hi hslots =>
      rw [hslots]
      refine keptLive_update (fun _ => ?_) j
      exact ⟨by simp [Slot.isLive, hi], rfl, by simp [hi]⟩
  | quiet _ hslots | idles _ _ _ _ _ hslots | rewaits _ _ _ _ _ _ hslots
  | leaves _ _ _ _ _ _ hslots | calls _ _ _ _ _ hslots
  | observes _ _ _ _ _ _ hslots | returns _ _ _ _ _ hslots
  | exits _ _ _ hslots =>
      rw [hslots]
      exact .refl _

/-- A Complete slot stays Complete, or the step ends it. -/
theorem Effect.complete_or_ends {s s' : System T} {e : Action T × Answer T}
    (heff : Effect s e s') (j)
    (hj : (s.engine.slots j).state = .complete) :
    ((s'.engine.slots j).state = .complete
        ∧ (s'.engine.slots j).id = (s.engine.slots j).id)
      ∨ Ends (s.engine.slots j).id e := by
  have hupdate : ∀ {i} {a : Slot T},
      s'.engine.slots = Function.update s.engine.slots i a → j ≠ i →
      (s'.engine.slots j).state = .complete
        ∧ (s'.engine.slots j).id = (s.engine.slots j).id := by
    intro i a hslots hji
    rw [hslots, Function.update_of_ne hji]
    exact ⟨hj, rfl⟩
  cases heff with
  | issued i _ _ _ _ _ _ hi _ _ hslots | unissued _ i hi hslots =>
      refine Or.inl (hupdate hslots ?_)
      intro heq
      subst heq
      simp [Slot.isReusable, hj] at hi
  | consumed i hi hrun he hslots =>
      by_cases hji : j = i
      · subst hji
        refine Or.inr ?_
        rcases he with ⟨buffer, rfl, hok, -⟩ | rfl
        · exact Or.inl ⟨buffer, _, rfl, hok⟩
        · exact Or.inr (Or.inl rfl)
      · exact Or.inl (hupdate hslots hji)
  | abandoned i hi hslots | claims _ _ _ i _ _ hi hslots =>
      refine Or.inl (hupdate hslots ?_)
      intro heq
      subst heq
      rw [hj] at hi
      cases hi
  | cleared n hslots => exact Or.inr (Or.inr (Or.inr ⟨n, rfl⟩))
  | quiet _ hslots | idles _ _ _ _ _ hslots | rewaits _ _ _ _ _ _ hslots
  | leaves _ _ _ _ _ _ hslots | calls _ _ _ _ _ hslots
  | observes _ _ _ _ _ _ hslots | returns _ _ _ _ _ hslots
  | exits _ _ _ hslots =>
      rw [hslots]
      exact Or.inl ⟨hj, rfl⟩

/-- The relock's write, as the phases see it. -/
theorem finished_keptLive {s : System T} {w : Nat} {call : PerformCall T}
    {result : Status} {response : HttpResponse} (ho : Owned s)
    (hw : s.workers[w]? = some (.performed call result response)) (j) :
    KeptLive (s.engine.slots j)
        ((s.finished w call result response).engine.slots j)
      ∧ ((s.engine.slots j).state = .complete →
        (s.finished w call result response).engine.slots j
          = s.engine.slots j) := by
  have hbusy : (s.engine.slots call.slot).isBusy = true :=
    ho.busy w _ (slotOf_of_get hw)
  by_cases hji : j = call.slot
  · subst hji
    rw [finished_slots, Function.update_self]
    unfold Slot.isBusy at hbusy
    unfold finishedSlot KeptLive
    cases hs : (s.engine.slots call.slot).state <;>
      simp [hs, Slot.isLive, freedSlot] at hbusy ⊢
  · rw [finished_other hji]
    exact ⟨.refl _, fun _ => rfl⟩

/-- One move of the slot table moves no phase back, and ends Ready only
by an `Ends` event. -/
theorem phase_move {s s' : System T} (hd : DistinctIds s)
    (hd' : DistinctIds s') (id : UInt32) (ends : Prop)
    (hlive : ∀ j, (s'.engine.slots j).id = id →
      KeptLive (s.engine.slots j) (s'.engine.slots j))
    (hcomplete : ∀ j, (s.engine.slots j).id = id →
      (s.engine.slots j).state = .complete →
      ((s'.engine.slots j).state = .complete
        ∧ (s'.engine.slots j).id = (s.engine.slots j).id) ∨ ends) :
    (s.engine.phase id).rank ≤ (s'.engine.phase id).rank
      ∧ (s.engine.phase id = .ready → s'.engine.phase id = .gone →
        ends) := by
  constructor
  · by_cases hgone : s'.engine.phase id = .gone
    · rw [hgone]
      cases s.engine.phase id <;> decide
    · obtain ⟨j, rfl, hj'⟩ := live_of_phase hgone
      obtain ⟨hj, hid, hc⟩ := hlive j rfl hj'
      rw [phase_of_live hd' hj', hid, phase_of_live hd hj]
      by_cases hcj : (s.engine.slots j).state = .complete
      · rw [if_pos hcj, if_pos (hc hcj)]
      · rw [if_neg hcj]
        exact Nat.zero_le _
  · intro hready hgone
    have hnot : s.engine.phase id ≠ .gone := by
      rw [hready]
      decide
    obtain ⟨j, rfl, hj⟩ := live_of_phase hnot
    rw [phase_of_live hd hj] at hready
    have hcj : (s.engine.slots j).state = .complete := by
      by_contra hne
      rw [if_neg hne] at hready
      cases hready
    rcases hcomplete j rfl hcj with ⟨hc', hid⟩ | hends
    · rw [← hid, phase_of_live hd' (by simp [Slot.isLive, hc']),
        if_pos hc'] at hgone
      cases hgone
    · exact hends

theorem EngineInv.phase_effect {s s' : System T} {e : Action T × Answer T}
    (hi : EngineInv s) (heff : Effect s e s') {id : UInt32}
    (hissue : ¬ Issues id e) :
    (s.engine.phase id).rank ≤ (s'.engine.phase id).rank
      ∧ (s.engine.phase id = .ready → s'.engine.phase id = .gone →
        Ends id e) := by
  refine phase_move hi.distinct (hi.effect heff).distinct id _ ?_ ?_
  · intro j heq
    subst heq
    exact heff.keptLive j hissue
  · intro j heq hc
    subst heq
    exact heff.complete_or_ends j hc

theorem EngineInv.phase_step {s s' : System T} {a : Action T}
    {b : Answer T} (hi : EngineInv s) (hst : s.step a = some (b, s'))
    {id : UInt32} (hissue : ¬ Issues id (a, b)) :
    (s.engine.phase id).rank ≤ (s'.engine.phase id).rank
      ∧ (s.engine.phase id = .ready → s'.engine.phase id = .gone →
        Ends id (a, b)) := by
  rcases step_effect hst with
    heff | ⟨w, call, result, response, rfl, hw, heff⟩
  · exact hi.phase_effect heff hissue
  · have hmid := hi.finished hw
    obtain ⟨hle, hends⟩ := hmid.phase_effect heff hissue
    obtain ⟨hle₀, hends₀⟩ := phase_move hi.distinct hmid.distinct id False
      (fun j _ => (finished_keptLive hi.owned hw j).1)
      (fun j _ hc => Or.inl (by
        rw [(finished_keptLive hi.owned hw j).2 hc]
        exact ⟨hc, rfl⟩))
    refine ⟨Nat.le_trans hle₀ hle, fun hready hgone => hends ?_ hgone⟩
    -- the publication itself ends nothing
    cases hp : (s.finished w call result response).engine.phase id with
    | ready => rfl
    | gone => exact (hends₀ hready hp).elim
    | waiting =>
        rw [hready, hp] at hle₀
        exact absurd hle₀ (by decide)

/-- An id that is live is not issued. -/
theorem issue_gone {s s' : System T} {client : HttpClient T}
    {request : HttpRequest} {start : WorkerStart} {seed id : UInt32}
    (hst : s.step (.dispatch client request start seed)
      = some (.dispatched .ok id, s')) :
    s.engine.phase id = .gone := by
  by_contra hp
  obtain ⟨j, hid, hj⟩ := live_of_phase hp
  rcases step_effect hst with heff | ⟨_, _, _, _, hact, -⟩
  · obtain ⟨-, hfresh, -⟩ := heff.of_issues
      (⟨client, request, start, seed, rfl⟩ : Issues id _)
    exact hfresh j (Slot.reusable_of_live hj) hid
  · cases hact

/-- Along a run that does not issue the id, its phases only go on. -/
theorem EngineInv.phase_run {s s' : System T} (hi : EngineInv s)
    (hrun : (asyncMachine T).Run s h s') (id : UInt32)
    (hissue : ∀ e ∈ h, ¬ Issues id e) :
    EngineInv s' ∧ (s.engine.phase id).rank ≤ (s'.engine.phase id).rank
      ∧ (s.engine.phase id = .ready → s'.engine.phase id = .gone →
        ∃ e ∈ h, Ends id e) := by
  induction hrun with
  | nil =>
      refine ⟨hi, Nat.le_refl _, fun hready hgone => ?_⟩
      rw [hready] at hgone
      cases hgone
  | @snoc s₁ s₂ h a b hrun hst ih =>
      obtain ⟨hi₁, hle, hends⟩ := ih fun e he =>
        hissue e (List.mem_append_left _ he)
      have hlast : (a, b) ∈ h ++ [(a, b)] :=
        List.mem_append_right _ (List.mem_singleton.mpr rfl)
      obtain ⟨hle', hends'⟩ := hi₁.phase_step hst (hissue _ hlast)
      refine ⟨hi₁.step hst, Nat.le_trans hle hle', fun hready hgone => ?_⟩
      cases hp : s₁.engine.phase id with
      | waiting =>
          rw [hready, hp] at hle
          exact absurd hle (by decide)
      | ready => exact ⟨_, hlast, hends' hp hgone⟩
      | gone =>
          obtain ⟨e, he, hends⟩ := hends hready hp
          exact ⟨e, List.mem_append_left _ he, hends⟩

-- ============================================================== the result

/-- Two Poll events of one id, with no Dispatch of it between them, are
in the order of the phases. -/
theorem poll_ordered {s : System T} {id : UInt32} {j k : Nat}
    {b b' : Answer T} (hr : AsyncReach T h s) (hjk : j < k)
    (hj : h[j]? = some (.poll id, b)) (hk : h[k]? = some (.poll id, b'))
    (hissue : ∀ m e, j < m → m < k → h[m]? = some e → ¬ Issues id e) :
    ∃ p p' : Phase, b = .polled p.poll.1 p.poll.2
      ∧ b' = .polled p'.poll.1 p'.poll.2 ∧ p.rank ≤ p'.rank
      ∧ (p = .ready → p' = .gone →
        ∃ m e, j < m ∧ m < k ∧ h[m]? = some e ∧ Ends id e) := by
  obtain ⟨s₁, s₁', s₂, s₂', hr₁, hst, hmid, hst'⟩ := hr.between hjk hj hk
  -- a Poll tells the phase, and leaves the system as it is
  have hpoll : ∀ {s s' : System T} {b : Answer T},
      (asyncMachine T).step s (.poll id) = some (b, s') →
      b = .polled (s.engine.phase id).poll.1 (s.engine.phase id).poll.2
        ∧ s' = s := by
    intro s s' b hst
    have hst : some (Answer.polled (s.engine.poll id).1
        (s.engine.poll id).2, s) = some (b, s') := hst
    injection hst with hst
    injection hst with hb hs
    rw [← poll_phase]
    exact ⟨hb.symm, hs.symm⟩
  obtain ⟨hb, rfl⟩ := hpoll hst
  obtain ⟨-, hle, hends⟩ := (EngineInv.reach hr₁).phase_run hmid id
    fun e he => by
      obtain ⟨m, hjm, hmk, hm⟩ := mem_between he
      exact hissue m e hjm hmk hm
  refine ⟨_, _, hb, (hpoll hst').1, hle, fun hready hgone => ?_⟩
  obtain ⟨e, he, hend⟩ := hends hready hgone
  obtain ⟨m, hjm, hmk, hm⟩ := mem_between he
  exact ⟨m, e, hjm, hmk, hm, hend⟩

/-- Request lifecycle. Until an id is issued again, the answers of its
Polls go through waiting, ready and gone in this order; Read says
RequestNotComplete in the first phase and only there; and the step out
of ready is a Read that returned Ok, a Discard of the id or a
DiscardAll, never a Read that failed to hand over the body. -/
theorem request_lifecycle {s : System T} (hr : AsyncReach T h s)
    (id : UInt32) :
    (∀ (j k : Nat) (b b' : Answer T), j < k →
      h[j]? = some (.poll id, b) → h[k]? = some (.poll id, b') →
      (∀ m e, j < m → m < k → h[m]? = some e → ¬ Issues id e) →
      ∃ p p' : Phase, b = .polled p.poll.1 p.poll.2
        ∧ b' = .polled p'.poll.1 p'.poll.2 ∧ p.rank ≤ p'.rank
        ∧ (p = .ready → p' = .gone →
          ∃ m e, j < m ∧ m < k ∧ h[m]? = some e ∧ Ends id e))
      ∧ (∀ buffer, (s.engine.read id buffer).1.status = .requestNotComplete
        ↔ s.engine.poll id = (.ok, 1))
      ∧ (∀ a b s', s.step a = some (b, s') →
        s.engine.poll id = (.ok, 2) →
        s'.engine.poll id = (.unknownRequestId, 0) → Ends id (a, b))
      ∧ ∀ id' buffer, (s.engine.read id' buffer).1.status ≠ .ok →
        (s.engine.read id' buffer).2.poll id = s.engine.poll id := by
  have hi := EngineInv.reach hr
  have hphase : ∀ {e : AsyncEngine T} (p : Phase),
      e.poll id = p.poll ↔ e.phase id = p := by
    intro e p
    rw [poll_phase]
    exact ⟨Phase.poll_inj, fun h => h ▸ rfl⟩
  refine ⟨fun j k b b' hjk hj hk => poll_ordered hr hjk hj hk,
    fun buffer => ?_, ?_, ?_⟩
  · rw [read_notComplete_iff]
    exact (hphase .waiting).symm
  · intro a b s' hst hready hgone
    have hready := (hphase .ready).mp hready
    by_cases hissue : Issues id (a, b)
    · -- an id that is live is not issued
      obtain ⟨client, request, start, seed, he⟩ := hissue
      injection he with ha hb
      subst ha hb
      rw [issue_gone hst] at hready
      cases hready
    · exact (hi.phase_step hst hissue).2 hready ((hphase .gone).mp hgone)
  · intro id' buffer hnot
    rcases read_cases s.engine id' buffer with
      ⟨-, hread⟩ | ⟨i, -, ⟨-, hread⟩ | ⟨-, -, hsame⟩⟩
    · rw [hread]
    · rw [hread]
    · rw [hsame hnot]

/-- A request polled in all three phases. -/
def watch : List (Action Unit) :=
  [.dispatch ⟨()⟩ { url := [104] } ⟨true, true⟩ 7, .poll 7, .firstLock 0,
    .perform 0, .performReturn 0 (.ok, {}), .relock 0, .poll 7,
    .discard 7, .poll 7]

theorem watch_runs : ((asyncMachine Unit).exec {} watch).isSome = true := by
  decide

theorem request_lifecycle_watch :
    ∃ p p' : Phase,
      (Answer.polled .ok 2 : Answer Unit) = .polled p.poll.1 p.poll.2
        ∧ (Answer.polled .unknownRequestId 0 : Answer Unit)
          = .polled p'.poll.1 p'.poll.2
        ∧ p.rank ≤ p'.rank := by
  obtain ⟨p, p', hp, hp', hle, -⟩ :=
    (request_lifecycle (.of_exec rfl watch_runs) 7).1 6 8
      (.polled .ok 2) (.polled .unknownRequestId 0) (by decide)
      (by decide) (by decide) (by
        intro m e hjm hmk hm
        obtain rfl : m = 7 := by omega
        have h7 : (((asyncMachine Unit).exec {} watch).get
            watch_runs).1[7]? = some (.discard 7, .discarded .ok) := by
          decide
        rw [h7, Option.some.injEq] at hm
        subst hm
        intro he
        obtain ⟨_, _, _, _, he⟩ := he
        cases he)
  exact ⟨p, p', hp, hp', hle⟩

end RestifyCapl.Http
