/-
What the scanner is for, in its own terms: a `Ledger` keeps two totals
and the open containers, a stack without a size. A scan that goes on
moves the ledger (`feed_view`), and a whole tree moves it by the number
of its leaves and the length of their keys, the leaves and keys of
`FlattenDocument` (`run_tree`).
-/
import RestifyCapl.Mapping.Proofs.Scan
import RestifyCapl.Mapping.Proofs.Correspondence

namespace RestifyCapl

open Lib
open Lib.Rose

variable {F : Type}

-- ============================================================== the ledger

structure Ledger where
  entries : Nat
  bytes : Nat
  pending : Nat
  opened : Bool
  stack : List KeyFrame

namespace Ledger

/-- The length of the key of the value that comes next. -/
def keyBytes (L : Ledger) : Nat :=
  match L.stack with
  | [] => 0
  | top :: _ =>
      top.prefixBytes + 1
        + if top.isArray then (decimal top.nextIndex).length else L.pending

/-- The open array, if it is one, moves on to its next element. -/
def bump : List KeyFrame → List KeyFrame
  | [] => []
  | top :: stack =>
      (if top.isArray then { top with nextIndex := top.nextIndex + 1 }
        else top) :: stack

def leaf (L : Ledger) : Ledger where
  entries := L.entries + 1
  bytes := L.bytes + L.keyBytes
  pending := L.pending
  opened := false
  stack := bump L.stack

def openContainer (L : Ledger) (isArray : Bool) : Option Ledger :=
  if L.stack.length < kMaxJsonDepth then
    some { L with
      opened := true
      stack := ⟨isArray, 0, L.keyBytes⟩ :: bump L.stack }
  else none

def closeContainer (L : Ledger) : Option Ledger :=
  match L.stack with
  | [] => none
  | top :: stack =>
      if L.opened then
        some { L with
          entries := L.entries + 1
          bytes := L.bytes + top.prefixBytes
          opened := false
          stack }
      else some { L with opened := false, stack }

def key (L : Ledger) (name : Bytes) : Option Ledger :=
  if 0 ∈ name then none
  else some { L with
    pending := (escapeToken name).length
    opened := false }

/-- An event the scanner goes on after. -/
def step (L : Ledger) : SaxEvent F → Option Ledger
  | .null | .boolean _ | .numberInteger _ | .numberUnsigned _
  | .numberFloat _ | .string _ => some L.leaf
  | .binary _ => none
  | .startObject => L.openContainer false
  | .endObject => L.closeContainer
  | .startArray => L.openContainer true
  | .endArray => L.closeContainer
  | .key name => L.key name

def run (L : Ledger) : List (SaxEvent F) → Option Ledger
  | [] => some L
  | event :: rest => (L.step event).bind fun L' => L'.run rest

theorem run_append (L : Ledger) (events rest : List (SaxEvent F)) :
    L.run (events ++ rest) = (L.run events).bind fun L' => L'.run rest := by
  induction events generalizing L with
  | nil => rfl
  | cons event events ih =>
      show (L.step event).bind _ = ((L.step event).bind _).bind _
      rw [Option.bind_assoc]
      congr 1
      funext L'
      exact ih L'

end Ledger

-- ============================================================= the scanner

namespace LimitCheckingSax

open Lib.SizeArith

/-- The first `depth` frames, innermost first. -/
def stackOf (frames : Vector KeyFrame kMaxJsonDepth) : Nat → List KeyFrame
  | 0 => []
  | depth + 1 =>
      match frames[depth]? with
      | none => stackOf frames depth
      | some frame => frame :: stackOf frames depth

/-- The ledger a scanner keeps. -/
def view (s : LimitCheckingSax) : Ledger where
  entries := s.entryCount
  bytes := s.keyTotal
  pending := s.pendingTokenBytes
  opened := s.previousEventOpenedContainer
  stack := stackOf s.frames s.depth

theorem stackOf_top {frames : Vector KeyFrame kMaxJsonDepth} {depth : Nat}
    {top : KeyFrame} (h : frames[depth]? = some top) :
    stackOf frames (depth + 1) = top :: stackOf frames depth := by
  show (match frames[depth]? with
    | none => _
    | some frame => frame :: stackOf frames depth) = _
  rw [h]

/-- Frames past the depth do not matter. -/
theorem stackOf_set {frames : Vector KeyFrame kMaxJsonDepth} {depth i : Nat}
    {frame : KeyFrame} (hi : i < kMaxJsonDepth) (h : depth ≤ i) :
    stackOf (frames.set i frame hi) depth = stackOf frames depth := by
  induction depth with
  | zero => rfl
  | succ depth ih =>
      unfold stackOf
      rw [Vector.getElem?_set_ne hi (by omega), ih (by omega)]

theorem stackOf_length {frames : Vector KeyFrame kMaxJsonDepth} {depth : Nat}
    (h : depth ≤ kMaxJsonDepth) : (stackOf frames depth).length = depth := by
  induction depth with
  | zero => rfl
  | succ depth ih =>
      rw [stackOf_top (Vector.getElem?_eq_getElem h), List.length_cons,
        ih (by omega)]

variable {w : Nat} {s s' : LimitCheckingSax}

theorem nextKeyBytes_view {k : Nat}
    (h : s.nextKeyBytes (checked w) = some (k, s')) :
    k = s.view.keyBytes ∧ s'.depth = s.depth
      ∧ s'.view = { s.view with stack := Ledger.bump s.view.stack } := by
  rcases nextKeyBytes_some h with ⟨h0, rfl, rfl⟩ |
    ⟨i, top, hi, htop, ⟨harray, rfl, hset⟩ | ⟨harray, rfl, rfl⟩⟩
  · have hstack : s'.view.stack = [] := by
      show stackOf s'.frames s'.depth = []
      rw [h0]
      rfl
    unfold Ledger.keyBytes
    rw [hstack]
    exact ⟨rfl, rfl, by rw [Ledger.bump, ← hstack]⟩
  · obtain ⟨hlt, rfl⟩ := setFrame_some hset
    have hstack : s.view.stack = top :: stackOf s.frames i := by
      show stackOf s.frames s.depth = _
      rw [hi, stackOf_top htop]
    have hstack' : stackOf (s.frames.set i
        { top with nextIndex := top.nextIndex + 1 } hlt) s.depth
        = { top with nextIndex := top.nextIndex + 1 }
          :: stackOf s.frames i := by
      rw [hi, stackOf_top (Vector.getElem?_set_self hlt),
        stackOf_set hlt (Nat.le_refl i)]
    refine ⟨?_, rfl, ?_⟩
    · unfold Ledger.keyBytes
      rw [hstack]
      dsimp only
      rw [if_pos harray]
    · rw [hstack, Ledger.bump, if_pos harray, ← hstack']
      rfl
  · have hstack : s'.view.stack = top :: stackOf s'.frames i := by
      show stackOf s'.frames s'.depth = _
      rw [hi, stackOf_top htop]
    have hne : ¬ top.isArray = true := by
      rw [harray]
      exact Bool.false_ne_true
    refine ⟨?_, rfl, ?_⟩
    · unfold Ledger.keyBytes
      rw [hstack]
      dsimp only
      rw [if_neg hne]
      rfl
    · rw [hstack, Ledger.bump, if_neg hne, ← hstack]

/-- The limits, which hold of a scanner at all times. -/
structure Within (s : LimitCheckingSax) : Prop where
  depth : s.depth ≤ kMaxJsonDepth
  entries : s.entryCount ≤ kMaxFlatEntries
  keys : s.keyTotal ≤ kMaxFlatKeyBytes

theorem within_init : init.Within :=
  ⟨Nat.zero_le _, Nat.zero_le _, Nat.zero_le _⟩

theorem leaf_view (hs : s.Within)
    (h : s.leaf (checked w) = some (true, s')) :
    s'.view = s.view.leaf ∧ s'.Within := by
  obtain ⟨k, s₁, hnext, hlt, hle, rfl⟩ := leaf_true h
  obtain ⟨hk, hdepth, hview⟩ := nextKeyBytes_view hnext
  rw [Ledger.mk.injEq] at hview
  obtain ⟨hentries, hbytes, hpending, hopened, hstack⟩ := hview
  constructor
  · rw [Ledger.leaf, Ledger.mk.injEq]
    refine ⟨?_, ?_, hpending, hopened, hstack⟩
    · exact congrArg (· + 1) hentries
    · show s₁.keyTotal + k = _
      rw [hk]
      exact congrArg (· + _) hbytes
  · refine ⟨?_, hlt, hle⟩
    rw [show s₁.depth = s.depth from hdepth]
    exact hs.depth

theorem openContainer_view {isArray : Bool} (hs : s.Within)
    (h : s.openContainer (checked w) isArray = some (true, s')) :
    s.view.openContainer isArray = some s'.view ∧ s'.Within := by
  obtain ⟨hlt, k, s₁, s₂, hnext, hset, rfl⟩ := openContainer_true h
  obtain ⟨hk, hdepth, hview⟩ := nextKeyBytes_view hnext
  obtain ⟨hi, rfl⟩ := setFrame_some hset
  rw [Ledger.mk.injEq] at hview
  obtain ⟨hentries, hbytes, hpending, hopened, hstack⟩ := hview
  have hlen : s.view.stack.length < kMaxJsonDepth := by
    show (stackOf s.frames s.depth).length < _
    rw [stackOf_length hs.depth]
    exact hlt
  constructor
  · unfold Ledger.openContainer
    rw [if_pos hlen, Option.some.injEq, Ledger.mk.injEq]
    refine ⟨hentries.symm, hbytes.symm, hpending.symm, rfl, ?_⟩
    show _ = stackOf (s₁.frames.set s₁.depth _ hi) (s₁.depth + 1)
    rw [stackOf_top (Vector.getElem?_set_self hi),
      stackOf_set hi (Nat.le_refl _), ← hk]
    exact congrArg (_ :: ·) hstack.symm
  · have hentries : s₁.entryCount = s.entryCount := hentries
    have hbytes : s₁.keyTotal = s.keyTotal := hbytes
    refine ⟨hi, ?_, ?_⟩
    · rw [hentries]
      exact hs.entries
    · rw [hbytes]
      exact hs.keys

theorem closeContainer_view (hs : s.Within)
    (h : s.closeContainer (checked w) = some (true, s')) :
    s.view.closeContainer = some s'.view ∧ s'.Within := by
  have hdepth := hs.depth
  obtain ⟨d, hd, hcases⟩ := closeContainer_true h
  have hlt : d < kMaxJsonDepth := by omega
  have htop : s.frames[d]? = some s.frames[d] :=
    Vector.getElem?_eq_getElem hlt
  have hstack : s.view.stack = s.frames[d] :: stackOf s.frames d := by
    show stackOf s.frames s.depth = _
    rw [hd, stackOf_top htop]
  unfold Ledger.closeContainer
  rw [hstack]
  dsimp only
  rcases hcases with ⟨hopened, rfl⟩ | ⟨hopened, top, htop', hlt, hle, rfl⟩
  · rw [if_neg (by simp [view, hopened])]
    exact ⟨rfl, by dsimp only; omega, hs.entries, hs.keys⟩
  · rw [htop, Option.some.injEq] at htop'
    subst htop'
    rw [if_pos (show s.view.opened = true from hopened)]
    exact ⟨rfl, by dsimp only; omega, hlt, hle⟩

theorem handle_view {event : SaxEvent F} (hs : s.Within)
    (h : s.handle (checked w) event = some (true, s')) :
    s.view.step event = some s'.view ∧ s'.Within := by
  cases event with
  | binary => cases h
  | startObject => exact openContainer_view hs h
  | startArray => exact openContainer_view hs h
  | endObject => exact closeContainer_view hs h
  | endArray => exact closeContainer_view hs h
  | key name =>
      obtain ⟨hnul, rfl⟩ := key_true h
      exact ⟨if_neg hnul, hs.depth, hs.entries, hs.keys⟩
  | _ =>
      obtain ⟨hview, hs'⟩ := leaf_view hs h
      exact ⟨congrArg some hview.symm, hs'⟩

/-- A scan to the end moves the ledger, and stays within the limits. -/
theorem feed_view {events : List (SaxEvent F)} (hs : s.Within)
    (h : s.feed (checked w) events = some (true, s')) :
    s.view.run events = some s'.view ∧ s'.Within := by
  induction events generalizing s with
  | nil =>
      cases h
      exact ⟨rfl, hs⟩
  | cons event events ih =>
      unfold feed at h
      split at h
      next => cases h
      next => cases h
      next s₁ hstep =>
        obtain ⟨hview, hs₁⟩ := handle_view hs hstep
        obtain ⟨hrun, hs'⟩ := ih hs₁ h
        refine ⟨?_, hs'⟩
        show (s.view.step event).bind _ = _
        rw [hview]
        exact hrun

end LimitCheckingSax

-- ================================================================ the trees

/-- The number of leaves. -/
def leafCount (v : JsonValue F) : Nat := (leaves v).length

/-- The length of the keys of the leaves together. -/
def keyText (v : JsonValue F) : Nat :=
  ((leaves v).map fun e => (pointerText e.1).length).sum

/-- The key text below a child of a container whose key has `k` bytes. -/
def childText (k : Nat) (c : Bytes × JsonValue F) : Nat :=
  leafCount c.2 * (k + 1 + (escapeToken c.1).length) + keyText c.2

/-- Containers nest at most `n` deep. -/
def NestingAtMost (n : Nat) (v : JsonValue F) : Prop :=
  ∀ pos labels u, Reaches v pos labels u →
    (u.isObject || u.isArray) = true → labels.length < n

/-- No key holds a NUL. -/
def PlainKeys (v : JsonValue F) : Prop :=
  ∀ pos labels u, Reaches v pos labels u → ∀ l ∈ labels, 0 ∉ l

theorem leafCount_node {v : JsonValue F} (h : v.labelled ≠ []) :
    leafCount v = (v.labelled.map fun c => leafCount c.2).sum := by
  unfold leafCount
  rw [leaves_node h, List.length_flatMap]
  congr 1
  apply List.map_congr_left
  intro c _
  exact List.length_map ..

theorem leafCount_leaf {v : JsonValue F} (h : v.labelled = []) :
    leafCount v = 1 := by
  unfold leafCount
  rw [leaves_leaf h]
  rfl

theorem keyText_leaf {v : JsonValue F} (h : v.labelled = []) :
    keyText v = 0 := by
  unfold keyText
  rw [leaves_leaf h]
  rfl

/-- A sum of sums, with a constant in front of every term. -/
theorem sum_map_add (l : List (List Bytes × JsonValue F)) (n : Nat)
    (f : List Bytes × JsonValue F → Nat) :
    (l.map fun e => n + f e).sum = l.length * n + (l.map f).sum := by
  induction l with
  | nil => simp
  | cons e l ih =>
      rw [List.map_cons, List.sum_cons, ih, List.map_cons, List.sum_cons,
        List.length_cons, Nat.succ_mul]
      omega

/-- The key text of a container whose own key has `k` bytes, child by
child. -/
theorem childText_node {v : JsonValue F} (h : v.labelled ≠ []) (k : Nat) :
    leafCount v * k + keyText v = (v.labelled.map (childText k)).sum := by
  have hkeys : leafCount v * k + keyText v
      = ((leaves v).map fun e => k + (pointerText e.1).length).sum :=
    (sum_map_add ..).symm
  rw [hkeys, leaves_node h, List.map_flatMap, List.flatMap_def,
    List.sum_flatten, List.map_map, JsonValue.children_eq]
  congr 1
  apply List.map_congr_left
  intro c _
  show (((leaves c.2).map fun e => (c.1 :: e.1, e.2)).map _).sum = _
  rw [List.map_map]
  unfold childText leafCount keyText
  rw [← sum_map_add]
  congr 1
  apply List.map_congr_left
  intro e _
  show k + (ch '/' :: escapeToken c.1 ++ pointerText e.1).length = _
  rw [List.length_append, List.length_cons]
  omega

theorem nestingAtMost_node {v : JsonValue F} {n : Nat}
    (h : ∀ c ∈ v.labelled, NestingAtMost n c.2) :
    NestingAtMost (n + 1) v := by
  intro pos labels u hr hu
  cases hr with
  | here => exact Nat.succ_pos n
  | child hk hr =>
      exact Nat.succ_lt_succ (h _ (List.mem_of_getElem? hk) _ _ _ hr hu)

theorem plainKeys_node {v : JsonValue F}
    (h : ∀ c ∈ v.labelled, 0 ∉ c.1 ∧ PlainKeys c.2) : PlainKeys v := by
  intro pos labels u hr l hl
  cases hr with
  | here => exact absurd hl List.not_mem_nil
  | child hk hr =>
      obtain ⟨hc, hplain⟩ := h _ (List.mem_of_getElem? hk)
      rcases List.mem_cons.mp hl with rfl | hl
      · exact hc
      · exact hplain _ _ _ hr l hl

end RestifyCapl
