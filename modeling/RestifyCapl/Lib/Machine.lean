/-
Machines with answers, their runs and their histories. A step takes an
action and gives an answer and the next state, or is not enabled; a run
keeps the list of everything that happened, oldest first, so that a
statement about time order is a statement about list positions.

The rules a development uses:

- `Reach.invariant`: what holds at the start and survives every step
  holds of every history and the state it leads to;
- `Run.at`: a position of the history is a step of the run, with the
  state before it and the state after it in hand;
- `Reach.between`: two positions are two steps, with a run between them;
- `Past.snoc`, `Past.now`: what held of an earlier state of the run;
- `Simulates.reach`: a machine whose steps are matched by another's,
  answer for answer, has only histories the other one has;
- `Run.matched`: states whose steps match, for some of the actions, have
  the same histories of these actions;
- `Run.traced`, `Run.untraced`: a machine and the same machine with more
  told in its answers (`tracing`) have the same runs.
-/
import RestifyCapl.Lib.History
import Mathlib.Data.List.Induction

namespace RestifyCapl.Lib

/-- States `σ`, actions `α`, answers `β`. `step s a` is `none` where `a`
is not enabled at `s`. -/
structure Machine (σ α β : Type*) where
  start : σ → Prop
  step : σ → α → Option (β × σ)

namespace Machine

variable {σ α β : Type*} {M : Machine σ α β}

/-- `M.Run s h s'`: the events `h`, in order, lead from `s` to `s'`. -/
inductive Run (M : Machine σ α β) : σ → List (α × β) → σ → Prop
  | nil (s : σ) : Run M s [] s
  | snoc {s s' s'' : σ} {h : List (α × β)} {a : α} {b : β} :
      Run M s h s' → M.step s' a = some (b, s'') →
      Run M s (h ++ [(a, b)]) s''

/-- `M.Reach h s`: some start state reaches `s` with history `h`. -/
def Reach (M : Machine σ α β) (h : List (α × β)) (s : σ) : Prop :=
  ∃ s₀, M.start s₀ ∧ M.Run s₀ h s

/-- Run a list of actions, collecting the history, and fail on the first
one that is not enabled: the executable spine. -/
def exec (M : Machine σ α β) (s : σ) : List α → Option (List (α × β) × σ)
  | [] => some ([], s)
  | a :: rest =>
      match M.step s a with
      | none => none
      | some (b, s') =>
          match exec M s' rest with
          | none => none
          | some (h, s'') => some ((a, b) :: h, s'')

-- ==================================================== gluing and splitting

theorem Run.cons {s s' s'' : σ} {h : List (α × β)} {a : α} {b : β}
    (hstep : M.step s a = some (b, s')) (hrun : M.Run s' h s'') :
    M.Run s ((a, b) :: h) s'' := by
  induction hrun with
  | nil => exact .snoc (.nil s) hstep
  | snoc _ hstep' ih => exact .snoc ih hstep'

theorem Run.nil_eq {s s' : σ} (hrun : M.Run s [] s') : s = s' := by
  generalize hl : [] = l at hrun
  cases hrun with
  | nil => rfl
  | snoc => simp at hl

theorem Run.split {s s'' : σ} {h h' : List (α × β)}
    (hrun : M.Run s (h ++ h') s'') :
    ∃ s', M.Run s h s' ∧ M.Run s' h' s'' := by
  induction h' using List.reverseRecOn generalizing s'' with
  | nil => exact ⟨s'', by simpa using hrun, .nil s''⟩
  | append_singleton h' e ih =>
      rw [← List.append_assoc] at hrun
      generalize hl : (h ++ h') ++ [e] = l at hrun
      cases hrun with
      | nil => simp at hl
      | snoc hrun hstep =>
          obtain ⟨hh, he⟩ := List.append_inj' hl rfl
          subst hh
          obtain ⟨s', hrun₁, hrun₂⟩ := ih hrun
          refine ⟨s', hrun₁, ?_⟩
          rw [List.singleton_inj] at he
          rw [he]
          exact .snoc hrun₂ hstep

/-- A position of the history is a step of the run. -/
theorem Run.at {s s'' : σ} {h : List (α × β)} {k : Nat} {a : α} {b : β}
    (hrun : M.Run s h s'') (hk : h[k]? = some (a, b)) :
    ∃ s₁ s₂, M.Run s (h.take k) s₁ ∧ M.step s₁ a = some (b, s₂)
      ∧ M.Run s₂ (h.drop (k + 1)) s'' := by
  obtain ⟨hlt, hget⟩ := List.getElem?_eq_some_iff.mp hk
  have hsplit : h = (h.take k ++ [(a, b)]) ++ h.drop (k + 1) := by
    rw [← hget, List.take_append_getElem hlt, List.take_append_drop]
  rw [hsplit] at hrun
  obtain ⟨s₂, hrun₁, hrun₂⟩ := hrun.split
  generalize hl : h.take k ++ [(a, b)] = l at hrun₁
  cases hrun₁ with
  | nil => simp at hl
  | snoc hrun₁ hstep =>
      obtain ⟨hh, he⟩ := List.append_inj' hl rfl
      rw [List.singleton_inj, Prod.mk.injEq] at he
      rw [hh, he.1, he.2]
      exact ⟨_, s₂, hrun₁, hstep, hrun₂⟩

theorem Run.of_exec {s s' : σ} {acts : List α} {h : List (α × β)}
    (hexec : M.exec s acts = some (h, s')) : M.Run s h s' := by
  induction acts generalizing s h with
  | nil =>
      simp only [exec, Option.some.injEq, Prod.mk.injEq] at hexec
      obtain ⟨rfl, rfl⟩ := hexec
      exact .nil s
  | cons a rest ih =>
      unfold exec at hexec
      cases hstep : M.step s a with
      | none => simp [hstep] at hexec
      | some bs =>
          obtain ⟨b, s₁⟩ := bs
          cases hrest : M.exec s₁ rest with
          | none => simp [hstep, hrest] at hexec
          | some hs =>
              obtain ⟨h', s₂⟩ := hs
              simp only [hstep, hrest, Option.some.injEq, Prod.mk.injEq]
                at hexec
              obtain ⟨rfl, rfl⟩ := hexec
              exact .cons hstep (ih hrest)

/-- The history of an executed list of actions holds these actions. -/
theorem exec_actions {s s' : σ} {acts : List α} {h : List (α × β)}
    (M : Machine σ α β) (hexec : M.exec s acts = some (h, s')) :
    h.map Prod.fst = acts := by
  induction acts generalizing s h with
  | nil =>
      simp only [exec, Option.some.injEq, Prod.mk.injEq] at hexec
      rw [← hexec.1, List.map_nil]
  | cons a rest ih =>
      unfold exec at hexec
      cases hstep : M.step s a with
      | none => simp [hstep] at hexec
      | some bs =>
          obtain ⟨b, s₁⟩ := bs
          cases hrest : M.exec s₁ rest with
          | none => simp [hstep, hrest] at hexec
          | some hs =>
              obtain ⟨h', s₂⟩ := hs
              simp only [hstep, hrest, Option.some.injEq, Prod.mk.injEq]
                at hexec
              obtain ⟨rfl, rfl⟩ := hexec
              rw [List.map_cons, ih hrest]

-- ============================================================== reaching

theorem Reach.init {s : σ} (hs : M.start s) : M.Reach [] s :=
  ⟨s, hs, .nil s⟩

theorem Reach.step {s s' : σ} {h : List (α × β)} {a : α} {b : β}
    (hr : M.Reach h s) (hst : M.step s a = some (b, s')) :
    M.Reach (h ++ [(a, b)]) s' := by
  obtain ⟨s₀, hs₀, hrun⟩ := hr
  exact ⟨s₀, hs₀, .snoc hrun hst⟩

/-- A run from a reachable state goes on with its history. -/
theorem Reach.run {s s' : σ} {h h' : List (α × β)} (hr : M.Reach h s)
    (hrun : M.Run s h' s') : M.Reach (h ++ h') s' := by
  induction hrun with
  | nil =>
      rw [List.append_nil]
      exact hr
  | snoc _ hst ih =>
      rw [← List.append_assoc]
      exact ih.step hst

/-- What an executed list of actions reaches. -/
theorem Reach.of_exec {s : σ} {acts : List α} (hs : M.start s)
    (h : (M.exec s acts).isSome = true) :
    M.Reach ((M.exec s acts).get h).1 ((M.exec s acts).get h).2 :=
  ⟨s, hs, .of_exec (Option.some_get h).symm⟩

/-- A position of a reachable history is a step between reachable
states. -/
theorem Reach.at {h : List (α × β)} {s : σ} {k : Nat} {a : α} {b : β}
    (hr : M.Reach h s) (hk : h[k]? = some (a, b)) :
    ∃ s₁ s₂, M.Reach (h.take k) s₁ ∧ M.step s₁ a = some (b, s₂)
      ∧ M.Run s₂ (h.drop (k + 1)) s := by
  obtain ⟨s₀, hs₀, hrun⟩ := hr
  obtain ⟨s₁, s₂, hrun₁, hstep, hrun₂⟩ := hrun.at hk
  exact ⟨s₁, s₂, ⟨s₀, hs₀, hrun₁⟩, hstep, hrun₂⟩

/-- Two positions of a reachable history are two steps, and the events
between them are a run from the one to the other. -/
theorem Reach.between {h : List (α × β)} {s : σ} {p q : Nat} {a a' : α}
    {b b' : β} (hr : M.Reach h s) (hpq : p < q)
    (hp : h[p]? = some (a, b)) (hq : h[q]? = some (a', b')) :
    ∃ s₀ s₁ s₂ s₃, M.Reach (h.take p) s₀ ∧ M.step s₀ a = some (b, s₁)
      ∧ M.Run s₁ (Lib.between h p q) s₂ ∧ M.step s₂ a' = some (b', s₃) := by
  obtain ⟨s₀, s₁, hr₀, hst, hrun⟩ := hr.at hp
  have hq' : (h.drop (p + 1))[q - (p + 1)]? = some (a', b') := by
    rw [List.getElem?_drop, Nat.add_sub_cancel' hpq, hq]
  obtain ⟨s₂, s₃, hmid, hst', -⟩ := hrun.at hq'
  exact ⟨s₀, s₁, s₂, s₃, hr₀, hst, hmid, hst'⟩

/-- The invariant rule: a fact about a history and the state it leads to
that holds at the start and survives every step holds throughout. -/
theorem Reach.invariant {P : List (α × β) → σ → Prop}
    (hinit : ∀ s, M.start s → P [] s)
    (hstep : ∀ h s a b s', M.Reach h s → P h s →
      M.step s a = some (b, s') → P (h ++ [(a, b)]) s')
    {h : List (α × β)} {s : σ} (hr : M.Reach h s) : P h s := by
  obtain ⟨s₀, hs₀, hrun⟩ := hr
  induction hrun with
  | nil => exact hinit _ hs₀
  | snoc hrun hst ih => exact hstep _ _ _ _ _ ⟨_, hs₀, hrun⟩ ih hst

/-- The run rule: a property of the running state that every step of the
run keeps, the run keeps. -/
theorem Run.keeps {P : σ → Prop} {s s' : σ} {h : List (α × β)}
    (hrun : M.Run s h s')
    (hstep : ∀ s a b s', (a, b) ∈ h → P s → M.step s a = some (b, s') →
      P s') (hs : P s) : P s' := by
  induction hrun with
  | nil => exact hs
  | snoc _ hst ih =>
      refine hstep _ _ _ _
        (List.mem_append_right _ (List.mem_singleton_self _)) (ih ?_) hst
      intro s a b s' he
      exact hstep s a b s' (List.mem_append_left _ he)

-- ============================================================== the past

/-- `P` held of a state the run has left. -/
def Past (M : Machine σ α β) (s₀ : σ) (h : List (α × β)) (P : σ → Prop) :
    Prop :=
  ∃ i s, i < h.length ∧ M.Run s₀ (h.take i) s ∧ P s

theorem Past.snoc {P : σ → Prop} {s₀ : σ} {h : List (α × β)}
    (hp : M.Past s₀ h P) (e : α × β) : M.Past s₀ (h ++ [e]) P := by
  obtain ⟨i, s, hi, hrun, hs⟩ := hp
  refine ⟨i, s, ?_, ?_, hs⟩
  · rw [List.length_append]
    omega
  · rwa [List.take_append_of_le_length (Nat.le_of_lt hi)]

/-- A step leaves the state it is taken in. -/
theorem Past.now {P : σ → Prop} {s₀ s : σ} {h : List (α × β)}
    (hrun : M.Run s₀ h s) (hs : P s) (e : α × β) :
    M.Past s₀ (h ++ [e]) P := by
  refine ⟨h.length, s, ?_, ?_, hs⟩
  · simp
  · rwa [List.take_append_of_le_length (Nat.le_refl _), List.take_length]

-- =============================================================== tracing

/-- The machine that adds to each answer what `f` sees in the state and
the action of the step. -/
def tracing {γ : Type*} (M : Machine σ α β) (f : σ → α → γ) :
    Machine σ α (β × γ) where
  start := M.start
  step s a := (M.step s a).map fun r => ((r.1, f s a), r.2)

section tracing

variable {γ : Type*} {f : σ → α → γ}

/-- An event without what was added to it. -/
def plain (e : α × (β × γ)) : α × β := (e.1, e.2.1)

theorem tracing_step {s s' : σ} {a : α} {b : β} {c : γ} :
    (M.tracing f).step s a = some ((b, c), s')
      ↔ M.step s a = some (b, s') ∧ c = f s a := by
  simp only [tracing, Option.map_eq_some_iff]
  constructor
  · rintro ⟨⟨b', s₁⟩, hst, heq⟩
    injection heq with hbc hs
    injection hbc with hb hc
    subst hb hs
    exact ⟨hst, hc.symm⟩
  · rintro ⟨hst, rfl⟩
    exact ⟨(b, s'), hst, rfl⟩

theorem Run.untraced {s s' : σ} {h : List (α × (β × γ))}
    (hrun : (M.tracing f).Run s h s') : M.Run s (h.map plain) s' := by
  induction hrun with
  | nil => exact .nil s
  | @snoc s₁ s₂ h a b _ hst ih =>
      rw [List.map_append]
      exact .snoc ih (tracing_step.mp hst).1

theorem Run.traced {s s' : σ} {h : List (α × β)} (hrun : M.Run s h s') :
    ∃ h' : List (α × (β × γ)),
      (M.tracing f).Run s h' s' ∧ h'.map plain = h := by
  induction hrun with
  | nil => exact ⟨[], .nil s, rfl⟩
  | @snoc s₁ s₂ h a b _ hst ih =>
      obtain ⟨h', hrun', rfl⟩ := ih
      exact ⟨h' ++ [(a, (b, f s₁ a))],
        .snoc hrun' (tracing_step.mpr ⟨hst, rfl⟩), by simp [plain]⟩

theorem Reach.untraced {s : σ} {h : List (α × (β × γ))}
    (hr : (M.tracing f).Reach h s) : M.Reach (h.map plain) s := by
  obtain ⟨s₀, hs₀, hrun⟩ := hr
  exact ⟨s₀, hs₀, hrun.untraced⟩

end tracing

-- ============================================================ simulation

/-- A run of actions whose steps are matched across `R` is matched. -/
theorem Run.matched {R : σ → σ → Prop} {A : α → Prop}
    (hstep : ∀ s t a b s', R s t → A a → M.step s a = some (b, s') →
      ∃ t', M.step t a = some (b, t') ∧ R s' t')
    {s s' t : σ} {h : List (α × β)} (hR : R s t) (hrun : M.Run s h s')
    (hA : ∀ e ∈ h, A e.1) : ∃ t', M.Run t h t' ∧ R s' t' := by
  induction hrun with
  | nil => exact ⟨t, .nil t, hR⟩
  | snoc _ hst ih =>
      obtain ⟨t₁, hrun₁, hR₁⟩ :=
        ih fun e he => hA e (List.mem_append_left _ he)
      obtain ⟨t', hst', hR'⟩ := hstep _ _ _ _ _ hR₁
        (hA _ (List.mem_append_right _ (List.mem_singleton.mpr rfl))) hst
      exact ⟨t', .snoc hrun₁ hst', hR'⟩

/-- `N` matches every step of `M` across `R`, answer for answer. `N` is a
relation, so that it may leave choices open that `M` has settled. -/
structure Simulates {τ : Type*} (M : Machine σ α β)
    (start : τ → Prop) (next : τ → α → β → τ → Prop)
    (R : σ → τ → Prop) : Prop where
  init : ∀ s, M.start s → ∃ t, start t ∧ R s t
  step : ∀ s t a b s', R s t → M.step s a = some (b, s') →
    ∃ t', next t a b t' ∧ R s' t'

/-- The histories of an answer-for-answer specification. -/
inductive Traces {τ : Type*} (start : τ → Prop)
    (next : τ → α → β → τ → Prop) : List (α × β) → τ → Prop
  | init {t : τ} : start t → Traces start next [] t
  | step {t t' : τ} {h : List (α × β)} {a : α} {b : β} :
      Traces start next h t → next t a b t' →
      Traces start next (h ++ [(a, b)]) t'

/-- Every history of a simulated machine is one of the specification. -/
theorem Simulates.reach {τ : Type*} {start : τ → Prop}
    {next : τ → α → β → τ → Prop} {R : σ → τ → Prop}
    (hsim : Simulates M start next R) {h : List (α × β)} {s : σ}
    (hr : M.Reach h s) : ∃ t, Traces start next h t ∧ R s t := by
  refine Reach.invariant (P := fun h s => ∃ t, Traces start next h t ∧ R s t)
    ?_ ?_ hr
  · intro s hs
    obtain ⟨t, ht, hR⟩ := hsim.init s hs
    exact ⟨t, .init ht, hR⟩
  · intro h s a b s' _ ⟨t, ht, hR⟩ hst
    obtain ⟨t', hn, hR'⟩ := hsim.step s t a b s' hR hst
    exact ⟨t', .step ht hn, hR'⟩

end Machine

end RestifyCapl.Lib
