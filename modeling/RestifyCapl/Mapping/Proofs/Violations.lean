/-
The first violation in the order of the text decides a scan. What breaks a
limit is said of the reading of the events before it (`violation`), which
knows neither the frames nor the counters of the scanner; the scanner
rejects exactly such an event, with its status (`handle_reports`), and of
several the first (`feed_reports`).
-/
import Mathlib.Data.List.Forall2
import RestifyCapl.Mapping.Proofs.NoWrap
import RestifyCapl.Mapping.Proofs.Reading

namespace RestifyCapl

open Lib

variable {F : Type}

-- ============================================================ what violates

def SaxEvent.opens : SaxEvent F → Bool
  | .startObject | .startArray => true
  | _ => false

def SaxEvent.hasNul : SaxEvent F → Bool
  | .key name => name.contains 0
  | _ => false

namespace Reading

def leafKeyBytes (R : Reading) : Nat := (R.leaves.map List.length).sum

/-- The limit an event breaks: it opens a container at depth 65, names a
member with a NUL, completes the leaf after the last one allowed, or takes
the key text past what is allowed. -/
def violation (R : Reading) (event : SaxEvent F) : Option Status :=
  if event.opens = true ∧ R.containers.length = kMaxJsonDepth then
    some .nestingTooDeep
  else if event.hasNul = true then some .parseError
  else if R.leaves.length = kMaxFlatEntries
      ∧ (R.read event).leaves.length = kMaxFlatEntries + 1 then
    some .tooManyEntries
  else if R.leafKeyBytes ≤ kMaxFlatKeyBytes
      ∧ kMaxFlatKeyBytes < (R.read event).leafKeyBytes then
    some .keyTextTooLarge
  else none

/-- No event breaks a limit. -/
def Clean (R : Reading) (events : List (SaxEvent F)) : Prop :=
  ∀ before event after, events = before ++ event :: after →
    (R.readAll before).violation event = none

def firstViolation (R : Reading) : List (SaxEvent F) → Option Status
  | [] => none
  | event :: rest =>
      (R.violation event).or ((R.read event).firstViolation rest)

theorem firstViolation_none {R : Reading} {events : List (SaxEvent F)} :
    R.firstViolation events = none ↔ R.Clean events := by
  induction events generalizing R with
  | nil =>
      refine ⟨?_, fun _ => rfl⟩
      intro _ before event after h
      simp at h
  | cons e events ih =>
      rw [firstViolation, Option.or_eq_none_iff, ih]
      constructor
      · rintro ⟨he, hrest⟩ before event after h
        cases before with
        | nil =>
            cases h
            exact he
        | cons e' before =>
            cases h
            exact hrest before event after rfl
      · intro h
        refine ⟨h [] e events rfl, ?_⟩
        rintro before event after rfl
        exact h (e :: before) event after rfl

theorem firstViolation_of_split {R : Reading} {status : Status}
    {before after : List (SaxEvent F)} {event : SaxEvent F}
    (hbefore : R.Clean before)
    (h : (R.readAll before).violation event = some status) :
    R.firstViolation (before ++ event :: after) = some status := by
  induction before generalizing R with
  | nil =>
      rw [List.nil_append, firstViolation, show R.violation event = _ from h]
      rfl
  | cons e before ih =>
      rw [← firstViolation_none, firstViolation, Option.or_eq_none_iff,
        firstViolation_none] at hbefore
      rw [List.cons_append, firstViolation, hbefore.1, Option.none_or]
      exact ih hbefore.2 h

/-- The first violation stands somewhere, and nothing before it. -/
theorem firstViolation_some {R : Reading} {events : List (SaxEvent F)}
    {status : Status} (h : R.firstViolation events = some status) :
    ∃ before event after, events = before ++ event :: after
      ∧ R.Clean before
      ∧ (R.readAll before).violation event = some status := by
  induction events generalizing R with
  | nil => cases h
  | cons e events ih =>
      cases he : R.violation e with
      | some status' =>
          rw [firstViolation, he, Option.some_or] at h
          refine ⟨[], e, events, rfl, ?_, he.trans h⟩
          intro before event after hnil
          simp at hnil
      | none =>
          rw [firstViolation, he, Option.none_or] at h
          obtain ⟨before, event, after, rfl, hclean, hevent⟩ := ih h
          refine ⟨e :: before, event, after, rfl, ?_, hevent⟩
          rw [← firstViolation_none, firstViolation, he, Option.none_or,
            firstViolation_none]
          exact hclean

end Reading

-- ============================================================== the ledger

namespace Ledger

/-- Why a leaf is not counted. -/
def uncounted (L : Ledger) (k : Nat) : Option Status :=
  if L.entries ≥ kMaxFlatEntries then some .tooManyEntries
  else if L.bytes + k > kMaxFlatKeyBytes then some .keyTextTooLarge
  else none

/-- Why the scanner stops at an event. -/
def rejection (L : Ledger) : SaxEvent F → Option Status
  | .null | .boolean _ | .numberInteger _ | .numberUnsigned _
  | .numberFloat _ | .string _ => L.uncounted L.keyBytes
  | .binary _ => some .parseError
  | .startObject | .startArray =>
      if L.stack.length ≥ kMaxJsonDepth then some .nestingTooDeep else none
  | .endObject | .endArray =>
      match L.stack with
      | [] => none
      | top :: _ => if L.opened then L.uncounted top.prefixBytes else none
  | .key name => if 0 ∈ name then some .parseError else none

end Ledger

namespace LimitCheckingSax

open Lib.SizeArith

variable {w : Nat} {s : LimitCheckingSax}

/-- A handler goes on, or stops with a status. -/
def Reports (s : LimitCheckingSax) (rejection : Option Status)
    (r : Bool × LimitCheckingSax) : Prop :=
  match rejection with
  | none => r.1 = true ∧ r.2.failure = s.failure
  | some status => r.1 = false ∧ r.2.failure = status

theorem countAndAdd_reports (hs : s.keyTotal ≤ kMaxFlatKeyBytes) (k : Nat) :
    Ensures (Reports s (s.view.uncounted k))
      (s.countAndAdd (checked w) k) := by
  intro r h
  unfold countAndAdd countEntry at h
  unfold Ledger.uncounted
  by_cases hentries : s.entryCount ≥ kMaxFlatEntries
  · rw [if_pos hentries] at h
    rw [if_pos (show s.view.entries ≥ _ from hentries)]
    cases h
    exact ⟨rfl, rfl⟩
  · rw [if_neg hentries] at h
    rw [if_neg (show ¬ s.view.entries ≥ _ from hentries)]
    obtain ⟨counted, hcounted, h⟩ := Option.bind_eq_some_iff.mp h
    obtain ⟨n, -, hcounted⟩ := Option.bind_eq_some_iff.mp hcounted
    cases hcounted
    obtain ⟨room, hroom, h⟩ := Option.bind_eq_some_iff.mp h
    obtain ⟨rfl, -, -⟩ := checked_sub hroom
    have hroom : k > kMaxFlatKeyBytes - s.keyTotal
        ↔ s.view.bytes + k > kMaxFlatKeyBytes := by
      show _ ↔ s.keyTotal + k > _
      omega
    by_cases hkeys : k > kMaxFlatKeyBytes - s.keyTotal
    · rw [if_pos (hroom.mp hkeys)]
      rw [show (if k > kMaxFlatKeyBytes - s.keyTotal then _ else _) = _ from
        if_pos hkeys] at h
      cases h
      exact ⟨rfl, rfl⟩
    · rw [if_neg (mt hroom.mpr hkeys)]
      rw [show (if k > kMaxFlatKeyBytes - s.keyTotal then _ else _) = _ from
        if_neg hkeys] at h
      obtain ⟨total, -, h⟩ := Option.bind_eq_some_iff.mp h
      cases h
      exact ⟨rfl, rfl⟩

/-- Finding a key changes neither the totals nor the failure. -/
theorem nextKeyBytes_keeps {k : Nat} {s' : LimitCheckingSax}
    (h : s.nextKeyBytes (checked w) = some (k, s')) :
    s'.failure = s.failure ∧ s'.entryCount = s.entryCount
      ∧ s'.keyTotal = s.keyTotal := by
  rcases nextKeyBytes_some h with ⟨-, -, rfl⟩ |
    ⟨i, top, -, -, ⟨-, -, hset⟩ | ⟨-, -, rfl⟩⟩
  · exact ⟨rfl, rfl, rfl⟩
  · obtain ⟨-, rfl⟩ := setFrame_some hset
    exact ⟨rfl, rfl, rfl⟩
  · exact ⟨rfl, rfl, rfl⟩

theorem leaf_reports (hs : s.Within) :
    Ensures (Reports s (s.view.uncounted s.view.keyBytes))
      (s.leaf (checked w)) := by
  intro r h
  obtain ⟨⟨k, s₁⟩, hnext, h⟩ := Option.bind_eq_some_iff.mp h
  obtain ⟨hfailure, hentries, hbytes⟩ := nextKeyBytes_keeps hnext
  obtain ⟨hk, -, -⟩ := nextKeyBytes_view hnext
  have hwithin : s₁.keyTotal ≤ kMaxFlatKeyBytes := by
    rw [hbytes]
    exact hs.keys
  have hcount := countAndAdd_reports hwithin k r h
  have hsame : s₁.view.uncounted k = s.view.uncounted s.view.keyBytes := by
    rw [hk]
    unfold Ledger.uncounted
    rw [show s₁.view.entries = s.view.entries from hentries,
      show s₁.view.bytes = s.view.bytes from hbytes]
    rfl
  rw [hsame] at hcount
  revert hcount
  unfold Reports
  rw [hfailure]
  exact id

theorem openContainer_reports (hs : s.Within) (isArray : Bool) :
    Ensures (Reports s (if s.view.stack.length ≥ kMaxJsonDepth then
        some .nestingTooDeep else none))
      (s.openContainer (checked w) isArray) := by
  intro r h
  have hdepth : s.view.stack.length = s.depth := stackOf_length hs.depth
  unfold openContainer at h
  rw [hdepth]
  by_cases hdeep : s.depth ≥ kMaxJsonDepth
  · rw [if_pos hdeep] at h ⊢
    cases h
    exact ⟨rfl, rfl⟩
  · rw [if_neg hdeep] at h ⊢
    obtain ⟨⟨k, s₁⟩, hnext, h⟩ := Option.bind_eq_some_iff.mp h
    obtain ⟨s₂, hset, h⟩ := Option.bind_eq_some_iff.mp h
    obtain ⟨d, -, h⟩ := Option.bind_eq_some_iff.mp h
    obtain ⟨hi, rfl⟩ := setFrame_some hset
    cases h
    exact ⟨rfl, (nextKeyBytes_keeps hnext).1⟩

theorem closeContainer_reports (hs : s.Within) :
    Ensures (Reports s (match s.view.stack with
        | [] => none
        | top :: _ =>
            if s.view.opened then s.view.uncounted top.prefixBytes else none))
      (s.closeContainer (checked w)) := by
  intro r h
  have hdepth := hs.depth
  obtain ⟨d, hd, h⟩ := Option.bind_eq_some_iff.mp h
  obtain ⟨rfl, hpos, -⟩ := checked_sub hd
  have hlt : s.depth - 1 < kMaxJsonDepth := by omega
  have htop : s.frames[s.depth - 1]? = some s.frames[s.depth - 1] :=
    Vector.getElem?_eq_getElem hlt
  have hstack : s.view.stack
      = s.frames[s.depth - 1] :: stackOf s.frames (s.depth - 1) := by
    have hsucc : s.depth = s.depth - 1 + 1 := by omega
    rw [← stackOf_top htop, ← hsucc]
    rfl
  rw [hstack]
  show Reports s (if s.previousEventOpenedContainer = true then _ else _) r
  cases hopened : s.previousEventOpenedContainer with
  | false =>
      rw [hopened] at h
      cases h
      exact ⟨rfl, rfl⟩
  | true =>
      rw [hopened] at h
      obtain ⟨top, htop', h⟩ := Option.bind_eq_some_iff.mp h
      rw [htop, Option.some.injEq] at htop'
      subst htop'
      rw [if_pos rfl]
      exact countAndAdd_reports (s := { s with
        depth := s.depth - 1
        previousEventOpenedContainer := false }) hs.keys _ r h

/-- A handler stops where the ledger says so, with the status it says. -/
theorem handle_reports (hs : s.Within) (event : SaxEvent F) :
    Ensures (Reports s (s.view.rejection event))
      (s.handle (checked w) event) := by
  cases event with
  | binary =>
      intro r h
      cases h
      exact ⟨rfl, rfl⟩
  | startObject => exact openContainer_reports hs false
  | startArray => exact openContainer_reports hs true
  | endObject => exact closeContainer_reports hs
  | endArray => exact closeContainer_reports hs
  | key name =>
      intro r h
      have h : key (checked w) s name = some r := h
      unfold key at h
      dsimp only at h
      show Reports s (if 0 ∈ name then _ else _) r
      by_cases hnul : 0 ∈ name
      · rw [if_pos hnul] at h ⊢
        cases h
        exact ⟨rfl, rfl⟩
      · rw [if_neg hnul] at h ⊢
        obtain ⟨bytes, -, h⟩ := Option.bind_eq_some_iff.mp h
        cases h
        exact ⟨rfl, rfl⟩
  | _ => exact leaf_reports hs

end LimitCheckingSax

-- ==================================================== ledger and reading

/-- The frame of an open container. -/
structure FrameOf (frame : KeyFrame) (c : OpenContainer) : Prop where
  isArray : frame.isArray = c.isArray
  prefixBytes : frame.prefixBytes = c.key.length
  nextIndex : c.isArray = true → frame.nextIndex = c.children

/-- A ledger keeps the numbers of a reading. The container opened last is
without children as long as no event came after it. -/
structure Ledger.Matches (L : Ledger) (R : Reading) : Prop where
  entries : L.entries = R.leaves.length
  bytes : L.bytes = R.leafKeyBytes
  stack : List.Forall₂ FrameOf L.stack R.containers
  pending : ∀ name, R.name = some name → L.pending = (escapeToken name).length
  opened : L.opened = true ↔
    R.name = none ∧ ∃ top ∈ R.containers.head?, top.children = 0
  entered : ∀ c ∈ R.containers.tail, c.children ≠ 0

namespace Ledger.Matches

open Reading

variable {L L' : Ledger} {R : Reading}

theorem init : LimitCheckingSax.init.view.Matches .start where
  entries := rfl
  bytes := rfl
  stack := .nil
  pending _ h := by cases h
  opened := by simp [LimitCheckingSax.view, LimitCheckingSax.init, start]
  entered _ h := by cases h

theorem depth (h : L.Matches R) : L.stack.length = R.containers.length :=
  h.stack.length_eq

/-- The key of the next value has the length the ledger counts. -/
theorem keyBytes (h : L.Matches R) (htakes : R.TakesValue) :
    L.keyBytes = R.key.length := by
  have hstack := h.stack
  unfold Ledger.keyBytes Reading.key
  rcases hcontainers : R.containers with - | ⟨top, outer⟩
  · rw [hcontainers] at hstack
    generalize L.stack = stack at hstack
    cases hstack with
    | nil => rfl
  · rw [hcontainers] at hstack
    generalize L.stack = stack at hstack
    cases hstack with
    | cons hframe _ =>
        dsimp only
        rw [List.length_append, List.length_cons, hframe.prefixBytes,
          hframe.isArray, token]
        cases harray : top.isArray with
        | true =>
            rw [if_pos rfl, if_pos rfl, hframe.nextIndex harray,
              escapeToken_decimal]
            omega
        | false =>
            have hname := htakes top (by rw [hcontainers]; rfl) harray
            obtain ⟨name, hname⟩ := Option.ne_none_iff_exists'.mp hname
            rw [if_neg Bool.false_ne_true, if_neg Bool.false_ne_true, hname,
              h.pending name hname]
            show _ = _ + ((escapeToken name).length + 1)
            omega

/-- The containers around a value, once it has begun. -/
theorem bump (h : L.Matches R) :
    List.Forall₂ FrameOf (Ledger.bump L.stack) R.begun := by
  have hstack := h.stack
  unfold begun
  generalize L.stack = stack at hstack
  generalize R.containers = containers at hstack
  cases hstack with
  | nil => exact .nil
  | @cons frame c _ _ hframe hrest =>
      refine .cons ?_ hrest
      cases harray : frame.isArray with
      | true =>
          rw [if_pos rfl]
          refine ⟨harray.symm.trans hframe.isArray, hframe.prefixBytes, ?_⟩
          intro hc
          exact congrArg (· + 1) (hframe.nextIndex hc)
      | false =>
          rw [if_neg Bool.false_ne_true]
          refine ⟨hframe.isArray, hframe.prefixBytes, ?_⟩
          intro hc
          have hc : c.isArray = true := hc
          rw [← hframe.isArray, harray] at hc
          cases hc

theorem begun_entered (h : L.Matches R) : ∀ c ∈ R.begun, c.children ≠ 0 := by
  have hentered := h.entered
  intro c hc
  unfold begun at hc
  rcases hcontainers : R.containers with - | ⟨top, outer⟩
  · rw [hcontainers] at hc
    cases hc
  · rw [hcontainers] at hc hentered
    rcases List.mem_cons.mp hc with rfl | hc
    · exact Nat.succ_ne_zero _
    · exact hentered c hc

/-- The ledger is not at an opening where every container has a child. -/
theorem settled {containers : List OpenContainer}
    (h : ∀ c ∈ containers, c.children ≠ 0) {name : Option Bytes} :
    false = true ↔ name = none ∧ ∃ top ∈ containers.head?, top.children = 0 := by
  refine ⟨fun h => absurd h Bool.false_ne_true, ?_⟩
  rintro ⟨-, top, htop, hzero⟩
  exact absurd hzero (h top (List.mem_of_mem_head? htop))

theorem leafKeyBytes_append (leaves : List Bytes) (key : Bytes) :
    ((leaves ++ [key]).map List.length).sum
      = (leaves.map List.length).sum + key.length := by
  rw [List.map_append, List.sum_append, List.map_singleton, List.sum_singleton]

theorem leaf (h : L.Matches R) (htakes : R.TakesValue) :
    L.leaf.Matches R.leaf where
  entries := by
    show L.entries + 1 = (R.leaves ++ [R.key]).length
    rw [h.entries, List.length_append, List.length_singleton]
  bytes := by
    show L.bytes + L.keyBytes = ((R.leaves ++ [R.key]).map List.length).sum
    rw [h.bytes, h.keyBytes htakes, leafKeyBytes_append]
    rfl
  stack := h.bump
  pending _ hname := by cases hname
  opened := settled h.begun_entered
  entered c hc := h.begun_entered c (List.mem_of_mem_tail hc)

theorem enter (h : L.Matches R) (htakes : R.TakesValue) {isArray : Bool}
    (hstep : L.openContainer isArray = some L') :
    L'.Matches (R.enter isArray) := by
  unfold Ledger.openContainer at hstep
  split at hstep
  · cases hstep
    exact {
      entries := h.entries
      bytes := h.bytes
      stack := .cons ⟨rfl, h.keyBytes htakes, fun _ => rfl⟩ h.bump
      pending := fun _ hname => by cases hname
      opened := ⟨fun _ => ⟨rfl, _, rfl, rfl⟩, fun _ => rfl⟩
      entered := h.begun_entered }
  · cases hstep

theorem leave (h : L.Matches R) (hname : R.name = none)
    (hstep : L.closeContainer = some L') : L'.Matches R.leave := by
  have hstack := h.stack
  have hopened := h.opened
  have hentered := h.entered
  have hentries := h.entries
  have hbytes := h.bytes
  unfold Ledger.closeContainer at hstep
  unfold Reading.leave
  rcases hcontainers : R.containers with - | ⟨top, outer⟩
  · rw [hcontainers] at hstack
    generalize L.stack = stack at hstack hstep
    cases hstack
    cases hstep
  · rw [hcontainers] at hstack hopened hentered
    generalize L.stack = stack at hstack hstep
    cases hstack with
    | cons hframe hrest =>
        have hempty : L.opened = true ↔ top.children = 0 := by
          rw [hopened, hname]
          simp
        dsimp only at hstep ⊢
        by_cases hzero : top.children = 0
        · rw [if_pos (hempty.mpr hzero)] at hstep
          rw [if_pos hzero]
          cases hstep
          exact {
            entries := by
              dsimp only
              rw [hentries, List.length_append, List.length_singleton]
            bytes := by
              show L.bytes + _ = ((R.leaves ++ [top.key]).map List.length).sum
              rw [hbytes, hframe.prefixBytes, leafKeyBytes_append]
              rfl
            stack := hrest
            pending := fun _ h => by cases h
            opened := settled hentered
            entered := fun c hc => hentered c (List.mem_of_mem_tail hc) }
        · rw [if_neg (mt hempty.mp hzero)] at hstep
          rw [if_neg hzero]
          cases hstep
          exact {
            entries := hentries
            bytes := hbytes
            stack := hrest
            pending := fun _ h => by cases h
            opened := settled hentered
            entered := fun c hc => hentered c (List.mem_of_mem_tail hc) }

/-- An event that is grammatical and goes on keeps the ledger with the
reading. -/
theorem step {event : SaxEvent F} (h : L.Matches R) (hallows : R.Allows event)
    (hstep : L.step event = some L') : L'.Matches (R.read event) := by
  cases event with
  | binary => cases hstep
  | startObject => exact h.enter hallows hstep
  | startArray => exact h.enter hallows hstep
  | endObject => exact h.leave hallows.1 hstep
  | endArray => exact h.leave hallows.1 hstep
  | key name =>
      have hstep : L.key name = some L' := hstep
      unfold Ledger.key at hstep
      split at hstep
      · cases hstep
      · cases hstep
        exact {
          entries := h.entries
          bytes := h.bytes
          stack := h.stack
          pending := by
            intro name' hname
            cases hname
            rfl
          opened := by
            refine ⟨fun h => absurd h Bool.false_ne_true, ?_⟩
            rintro ⟨hname, -⟩
            cases hname
          entered := h.entered }
  | _ =>
      cases hstep
      exact h.leaf hallows

end Ledger.Matches

namespace LimitCheckingSax

open Lib.SizeArith
open Reading

variable {w : Nat} {s : LimitCheckingSax} {R : Reading}

/-- An event that completes no leaf can only nest too deep or hold a
NUL. -/
theorem violation_of_same {event : SaxEvent F}
    (h : (R.read event).leaves = R.leaves) :
    R.violation event
      = if event.opens = true ∧ R.containers.length = kMaxJsonDepth then
          some .nestingTooDeep
        else if event.hasNul = true then some .parseError else none := by
  unfold violation leafKeyBytes
  rw [h, if_neg (show ¬ (R.leaves.length = kMaxFlatEntries
      ∧ R.leaves.length = kMaxFlatEntries + 1) by omega),
    if_neg (show ¬ ((R.leaves.map List.length).sum ≤ kMaxFlatKeyBytes
      ∧ kMaxFlatKeyBytes < (R.leaves.map List.length).sum) by omega)]

/-- A leaf goes over the number of entries before it goes over the key
text. -/
theorem violation_of_leaf (hs : s.Within) (hmatches : s.view.Matches R)
    {event : SaxEvent F} {key : Bytes} (hopens : event.opens = false)
    (hnul : event.hasNul = false)
    (hread : (R.read event).leaves = R.leaves ++ [key]) :
    R.violation event = s.view.uncounted key.length := by
  have hentries : s.view.entries ≤ kMaxFlatEntries := hs.entries
  have hbytes : s.view.bytes ≤ kMaxFlatKeyBytes := hs.keys
  unfold violation Ledger.uncounted
  rw [if_neg (by rw [hopens]; simp), if_neg (by rw [hnul]; simp)]
  have hkeys : (R.read event).leafKeyBytes = R.leafKeyBytes + key.length := by
    unfold leafKeyBytes
    rw [hread, Ledger.Matches.leafKeyBytes_append]
  rw [hkeys, hread, List.length_append, List.length_singleton,
    ← hmatches.entries, ← hmatches.bytes]
  by_cases hfull : s.view.entries ≥ kMaxFlatEntries
  · rw [if_pos hfull, if_pos (by omega)]
  · rw [if_neg hfull, if_neg (by omega)]
    by_cases hlong : s.view.bytes + key.length > kMaxFlatKeyBytes
    · rw [if_pos hlong, if_pos ⟨hbytes, hlong⟩]
    · rw [if_neg hlong, if_neg (fun h => hlong h.2)]

theorem violation_of_open (hs : s.Within) (hmatches : s.view.Matches R)
    {event : SaxEvent F} (hopens : event.opens = true)
    (hnul : event.hasNul = false)
    (hread : (R.read event).leaves = R.leaves) :
    R.violation event
      = if s.view.stack.length ≥ kMaxJsonDepth then some .nestingTooDeep
        else none := by
  have hdepth : s.view.stack.length ≤ kMaxJsonDepth := by
    show (stackOf s.frames s.depth).length ≤ _
    rw [stackOf_length hs.depth]
    exact hs.depth
  rw [violation_of_same hread, hnul, hmatches.depth]
  rw [hmatches.depth] at hdepth
  by_cases hdeep : R.containers.length ≥ kMaxJsonDepth
  · rw [if_pos hdeep, if_pos ⟨hopens, by omega⟩]
  · rw [if_neg hdeep, if_neg (by omega), if_neg Bool.false_ne_true]

theorem violation_of_close (hs : s.Within) (hmatches : s.view.Matches R)
    {event : SaxEvent F} {isArray : Bool} (hwithin : R.Within isArray)
    (hopens : event.opens = false) (hnul : event.hasNul = false)
    (hread : R.read event = R.leave) :
    R.violation event
      = match s.view.stack with
        | [] => none
        | top :: _ =>
            if s.view.opened then s.view.uncounted top.prefixBytes
            else none := by
  obtain ⟨hname, top, htop, -⟩ := hwithin
  have hstack := hmatches.stack
  have hopened := hmatches.opened
  rcases hcontainers : R.containers with - | ⟨top', outer⟩
  · rw [hcontainers] at htop
    cases htop
  · rw [hcontainers] at hstack hopened
    have hempty : s.view.opened = true ↔ top'.children = 0 := by
      rw [hopened, hname]
      simp
    have hleaves : (R.read event).leaves
        = if top'.children = 0 then R.leaves ++ [top'.key] else R.leaves := by
      rw [hread, leave, hcontainers]
    rcases hframes : s.view.stack with - | ⟨frame, frames⟩
    · rw [hframes] at hstack
      cases hstack
    · rw [hframes] at hstack
      cases hstack with
      | cons hframe _ =>
          dsimp only
          by_cases hzero : top'.children = 0
          · rw [if_pos hzero] at hleaves
            rw [if_pos (hempty.mpr hzero), hframe.prefixBytes]
            exact violation_of_leaf hs hmatches hopens hnul hleaves
          · rw [if_neg hzero] at hleaves
            rw [if_neg (mt hempty.mp hzero), violation_of_same hleaves,
              hopens, hnul]
            simp

/-- What the ledger stops at is what breaks a limit. -/
theorem violation_eq (hs : s.Within) (hmatches : s.view.Matches R)
    {event : SaxEvent F} (hallows : R.Allows event) :
    R.violation event = s.view.rejection event := by
  cases event with
  | binary => cases hallows
  | startObject => exact violation_of_open hs hmatches rfl rfl rfl
  | startArray => exact violation_of_open hs hmatches rfl rfl rfl
  | endObject => exact violation_of_close hs hmatches hallows rfl rfl rfl
  | endArray => exact violation_of_close hs hmatches hallows rfl rfl rfl
  | key name =>
      rw [violation_of_same rfl]
      show _ = if 0 ∈ name then _ else _
      rw [if_neg (fun h => absurd h.1 Bool.false_ne_true)]
      by_cases hnul : 0 ∈ name
      · have hname : (SaxEvent.key (F := F) name).hasNul = true :=
          List.contains_iff_mem.mpr hnul
        rw [if_pos hnul, if_pos hname]
      · have hname : ¬ (SaxEvent.key (F := F) name).hasNul = true :=
          mt List.contains_iff_mem.mp hnul
        rw [if_neg hnul, if_neg hname]
  | _ =>
      show _ = s.view.uncounted s.view.keyBytes
      rw [hmatches.keyBytes hallows]
      exact violation_of_leaf hs hmatches rfl rfl rfl

-- ================================================================ the scan

/-- A scan stops at the first violation, with its status. -/
theorem feed_reports {events : List (SaxEvent F)} (hs : s.Within)
    (hmatches : s.view.Matches R) (hgrammar : R.Grammatical events) :
    Ensures (Reports s (R.firstViolation events))
      (s.feed (checked w) events) := by
  induction events generalizing s R with
  | nil =>
      intro r h
      cases h
      exact ⟨rfl, rfl⟩
  | cons event events ih =>
      intro r h
      unfold feed at h
      rw [firstViolation, violation_eq hs hmatches hgrammar.1]
      cases hstep : s.handle (checked w) event with
      | none =>
          rw [hstep] at h
          cases h
      | some r' =>
          rw [hstep] at h
          have hreport := handle_reports hs event r' hstep
          obtain ⟨fed, s'⟩ := r'
          cases hrejection : s.view.rejection event with
          | some status =>
              rw [hrejection] at hreport
              obtain ⟨hfed, hfailure⟩ := hreport
              cases hfed
              cases h
              exact ⟨rfl, hfailure⟩
          | none =>
              rw [hrejection] at hreport
              obtain ⟨hfed, hfailure⟩ := hreport
              cases hfed
              obtain ⟨hview, hs'⟩ := handle_view hs hstep
              have hrest := ih hs' (hmatches.step hgrammar.1 hview)
                hgrammar.2 r h
              rw [Option.none_or]
              revert hrest
              unfold Reports
              rw [show s'.failure = s.failure from hfailure]
              exact id

theorem containers_read {event : SaxEvent F} (h : R.Allows event) :
    (R.read event).containers.length
      = event.depthAfter R.containers.length := by
  have hbegun : R.begun.length = R.containers.length := by
    unfold begun
    cases R.containers <;> rfl
  cases event with
  | binary => rfl
  | startObject => exact congrArg (· + 1) hbegun
  | startArray => exact congrArg (· + 1) hbegun
  | endObject =>
      show R.leave.containers.length = R.containers.length - 1
      unfold leave
      rcases hcontainers : R.containers with - | ⟨top, outer⟩
      · rw [hcontainers]
        rfl
      · rfl
  | endArray =>
      show R.leave.containers.length = R.containers.length - 1
      unfold leave
      rcases hcontainers : R.containers with - | ⟨top, outer⟩
      · rw [hcontainers]
        rfl
      · rfl
  | key name => rfl
  | _ => exact hbegun

/-- A grammatical sequence closes only what it opened. -/
theorem nested_of_grammatical {events : List (SaxEvent F)}
    (h : R.Grammatical events) : Nested R.containers.length events := by
  induction events generalizing R with
  | nil => trivial
  | cons event events ih =>
      obtain ⟨hallows, hrest⟩ := h
      refine ⟨?_, ?_⟩
      · intro hcloses
        have hwithin : ∃ isArray, R.Within isArray := by
          cases event with
          | endObject => exact ⟨false, hallows⟩
          | endArray => exact ⟨true, hallows⟩
          | _ => cases hcloses
        obtain ⟨-, -, top, htop, -⟩ := hwithin
        exact List.length_pos_of_mem (List.mem_of_mem_head? htop)
      · rw [← containers_read hallows]
        exact ih hrest

/-- On the machine, where a scan ends and how. -/
theorem feed_wrapping {events : List (SaxEvent F)} (hw : 32 ≤ w)
    (hgrammar : start.Grammatical events) (hfits : Fits w (eventBytes events)) :
    ∃ r, init.feed (wrapping w) events = some r
      ∧ Reports init (start.firstViolation events) r := by
  have hfits : Fits w (0 + eventBytes events) := by rwa [Nat.zero_add]
  obtain ⟨r, hr⟩ := feed_defined hw counted_init
    (nested_of_grammatical hgrammar) hfits
  exact ⟨r, feed_below w init events r hr,
    feed_reports within_init Ledger.Matches.init hgrammar r hr⟩

/-- A parser that reports no error leaves the last word to the flattener,
which never says `ParseError`. -/
theorem flattenConverted_complete [JsonFloat F] {parser : Parser F}
    (hlawful : parser.Lawful) {text : Bytes} {sax : LimitCheckingSax}
    (hfailure : sax.failure = .parseError)
    (hfeed : init.feed (wrapping w) (parser.events text) = some (true, sax)) :
    flattenConverted (wrapping w) parser text = some (.error .parseError)
      ↔ parser.complete text = false := by
  unfold flattenConverted saxParse
  rw [hfeed]
  cases hcomplete : parser.complete text with
  | false =>
      refine ⟨fun _ => rfl, fun _ => ?_⟩
      show some (Except.error sax.failure) = _
      rw [hfailure]
  | true =>
      obtain ⟨raw, -, -, hparse⟩ := hlawful.tree text hcomplete
      dsimp only [Bool.true_and]
      rw [hparse]
      dsimp only
      rw [flattenDocument_eq]
      simp

/-- The first violation in text order decides. For the events of a JSON
text, complete or cut short by an error, a scan rejects if and only if
some event breaks a limit, the status is the one of the first such event,
and where there is none it is `ParseError` exactly when the parser reports
an error. -/
theorem first_violation_decides [JsonFloat F] (hw : 32 ≤ w)
    {parser : Parser F} (hlawful : parser.Lawful) {text : Bytes}
    (hgrammar : start.Grammatical (parser.events text))
    (hfits : Fits w (eventBytes (parser.events text))) :
    ∃ accepted sax,
      init.feed (wrapping w) (parser.events text) = some (accepted, sax)
        ∧ (accepted = false ↔ ∃ before event after,
            parser.events text = before ++ event :: after
              ∧ (start.readAll before).violation event ≠ none)
        ∧ (∀ before event after status,
            parser.events text = before ++ event :: after →
            start.Clean before →
            (start.readAll before).violation event = some status →
            sax.failure = status
              ∧ flattenConverted (wrapping w) parser text
                = some (.error status))
        ∧ (start.Clean (parser.events text) →
            sax.failure = .parseError
              ∧ (flattenConverted (wrapping w) parser text
                  = some (.error .parseError)
                ↔ parser.complete text = false)) := by
  obtain ⟨⟨accepted, sax⟩, hfeed, hreports⟩ :=
    feed_wrapping hw hgrammar hfits
  refine ⟨accepted, sax, hfeed, ?_, ?_, ?_⟩
  · cases hfirst : start.firstViolation (parser.events text) with
    | none =>
        rw [hfirst] at hreports
        obtain ⟨haccepted, -⟩ := hreports
        have hclean := firstViolation_none.mp hfirst
        refine ⟨fun h => ?_, ?_⟩
        · rw [show accepted = true from haccepted] at h
          cases h
        · rintro ⟨before, event, after, hevents, hviolation⟩
          exact absurd (hclean before event after hevents) hviolation
    | some status =>
        rw [hfirst] at hreports
        obtain ⟨before, event, after, hevents, -, hviolation⟩ :=
          firstViolation_some hfirst
        refine ⟨fun _ => ⟨before, event, after, hevents, ?_⟩,
          fun _ => hreports.1⟩
        rw [hviolation]
        exact Option.some_ne_none status
  · intro before event after status hevents hclean hviolation
    have hfirst : start.firstViolation (parser.events text) = some status := by
      rw [hevents]
      exact firstViolation_of_split hclean hviolation
    rw [hfirst] at hreports
    obtain ⟨haccepted, hfailure⟩ := hreports
    obtain rfl : accepted = false := haccepted
    obtain rfl : sax.failure = status := hfailure
    refine ⟨rfl, ?_⟩
    unfold flattenConverted saxParse
    rw [hfeed]
    rfl
  · intro hclean
    rw [firstViolation_none.mpr hclean] at hreports
    obtain ⟨haccepted, hfailure⟩ := hreports
    obtain rfl : accepted = true := haccepted
    exact ⟨hfailure, flattenConverted_complete hlawful hfailure hfeed⟩

/-- An object whose one key is the NUL character. -/
def nulKey : JsonValue Empty := .object [([0], .null)]

/-- `{"\u0000":null}`. -/
def nulKeyText : Bytes :=
  [123, 34, 92, 117, 48, 48, 48, 48, 34, 58, 110, 117, 108, 108, 125]

theorem nulKeyText_events :
    (Parser.ofText nulKeyText nulKey).events nulKeyText
      = [.startObject, .key [0], .null, .endObject] := by
  show (if nulKeyText = nulKeyText then nulKey.saxEvents else []) = _
  rw [if_pos rfl]
  rfl

theorem first_violation_decides_nul_key : ∃ accepted sax,
    init.feed (wrapping 64)
        [SaxEvent.startObject (F := Empty), .key [0], .null, .endObject]
        = some (accepted, sax)
      ∧ accepted = false
      ∧ flattenConverted (wrapping 64) (.ofText nulKeyText nulKey) nulKeyText
        = some (.error .parseError) := by
  have hbytes : eventBytes nulKey.saxEvents ≤ nulKeyText.length := by decide
  have hgrammar : start.Grammatical
      ((Parser.ofText nulKeyText nulKey).events nulKeyText) := by
    rw [nulKeyText_events]
    exact grammatical_of_tree (v := nulKey) (List.prefix_refl _)
  have hfits : Fits 64 (eventBytes
      ((Parser.ofText nulKeyText nulKey).events nulKeyText)) := by
    rw [nulKeyText_events]
    exact fits_converted (by omega) (by decide)
  obtain ⟨accepted, sax, hfeed, hrejects, hstatus, -⟩ :=
    first_violation_decides (w := 64) (by omega)
      (Parser.ofText_lawful hbytes) hgrammar hfits
  rw [nulKeyText_events] at hfeed hrejects hstatus
  have hclean : start.Clean [SaxEvent.startObject (F := Empty)] :=
    firstViolation_none.mp rfl
  refine ⟨accepted, sax, hfeed, hrejects.mpr ?_, ?_⟩
  · exact ⟨[.startObject], .key [0], [.null, .endObject], rfl, by decide⟩
  · exact (hstatus [.startObject] (.key [0]) [.null, .endObject] .parseError
      rfl hclean rfl).2

end LimitCheckingSax

end RestifyCapl
