/-
What a sequence of parser events says, in its own terms: which containers
are open, under which key each stands, and the keys of the leaves that are
complete. A reading knows no limits and counts nothing; over the events of
a tree it lists the leaves of the tree (`read_tree`).
-/
import RestifyCapl.Mapping.Proofs.Ledger

namespace RestifyCapl

open Lib
open Lib.Rose

variable {F : Type}

-- ============================================================= the reading

/-- An open container, its key, and how many children it has so far. -/
structure OpenContainer where
  isArray : Bool
  key : Bytes
  children : Nat

/-- The open containers, innermost first, the name of the member whose
value comes next, and the keys of the leaves in order. -/
structure Reading where
  containers : List OpenContainer
  name : Option Bytes
  leaves : List Bytes

namespace Reading

def start : Reading := ⟨[], none, []⟩

/-- The token of the value that comes next. -/
def token (R : Reading) (top : OpenContainer) : Bytes :=
  if top.isArray then decimal top.children else R.name.getD []

/-- The key of the value that comes next. -/
def key (R : Reading) : Bytes :=
  match R.containers with
  | [] => []
  | top :: _ => top.key ++ ch '/' :: escapeToken (R.token top)

/-- The open containers once the next value has begun. -/
def begun (R : Reading) : List OpenContainer :=
  match R.containers with
  | [] => []
  | top :: outer => { top with children := top.children + 1 } :: outer

def leaf (R : Reading) : Reading := ⟨R.begun, none, R.leaves ++ [R.key]⟩

def enter (R : Reading) (isArray : Bool) : Reading :=
  ⟨⟨isArray, R.key, 0⟩ :: R.begun, none, R.leaves⟩

/-- A container without children is a leaf. -/
def leave (R : Reading) : Reading :=
  match R.containers with
  | [] => R
  | top :: outer =>
      ⟨outer, none,
        if top.children = 0 then R.leaves ++ [top.key] else R.leaves⟩

def read (R : Reading) : SaxEvent F → Reading
  | .null | .boolean _ | .numberInteger _ | .numberUnsigned _
  | .numberFloat _ | .string _ => R.leaf
  | .binary _ => R
  | .startObject => R.enter false
  | .startArray => R.enter true
  | .endObject | .endArray => R.leave
  | .key name => { R with name := some name }

def readAll (R : Reading) (events : List (SaxEvent F)) : Reading :=
  events.foldl read R

theorem readAll_append (R : Reading) (events rest : List (SaxEvent F)) :
    R.readAll (events ++ rest) = (R.readAll events).readAll rest :=
  List.foldl_append

-- ============================================================= the grammar

/-- A value may come: at the root, in an array, or after its name. -/
def TakesValue (R : Reading) : Prop :=
  ∀ top ∈ R.containers.head?, top.isArray = false → R.name ≠ none

/-- The innermost container is of a kind, and no value is due in it. -/
def Within (R : Reading) (isArray : Bool) : Prop :=
  R.name = none ∧ ∃ top ∈ R.containers.head?, top.isArray = isArray

/-- The events that can come next in a JSON text. -/
def Allows (R : Reading) : SaxEvent F → Prop
  | .null | .boolean _ | .numberInteger _ | .numberUnsigned _
  | .numberFloat _ | .string _ | .startObject | .startArray => R.TakesValue
  | .binary _ => False
  | .endObject | .key _ => R.Within false
  | .endArray => R.Within true

/-- Well nested, a key before each member of an object, no binary
events; cut short anywhere. -/
def Grammatical (R : Reading) : List (SaxEvent F) → Prop
  | [] => True
  | event :: rest => R.Allows event ∧ (R.read event).Grammatical rest

theorem Grammatical.left {R : Reading} {events rest : List (SaxEvent F)}
    (h : R.Grammatical (events ++ rest)) : R.Grammatical events := by
  induction events generalizing R with
  | nil => trivial
  | cons event events ih => exact ⟨h.1, ih h.2⟩

-- ============================================================== the trees

/-- What the events of a value leave. -/
def after (R : Reading) (v : JsonValue F) : Reading :=
  ⟨R.begun, none,
    R.leaves ++ (Rose.leaves v).map fun e => R.key ++ pointerText e.1⟩

/-- The keys of the leaves below some children of a container. -/
def childKeys (key : Bytes) (children : List (Bytes × JsonValue F)) :
    List Bytes :=
  children.flatMap fun c => (Rose.leaves c.2).map fun e =>
    key ++ pointerText (c.1 :: e.1)

/-- The events of a value, read where a value may come. -/
structure Reads (R R' : Reading) (events : List (SaxEvent F)) : Prop where
  result : R.readAll events = R'
  grammatical : ∀ rest, R'.Grammatical rest → R.Grammatical (events ++ rest)

theorem Reads.nil (R : Reading) : R.Reads R ([] : List (SaxEvent F)) :=
  ⟨rfl, fun _ h => h⟩

theorem Reads.append {R₁ R₂ R₃ : Reading} {events rest : List (SaxEvent F)}
    (h : R₁.Reads R₂ events) (h' : R₂.Reads R₃ rest) :
    R₁.Reads R₃ (events ++ rest) where
  result := by rw [readAll_append, h.result, h'.result]
  grammatical tail htail := by
    rw [List.append_assoc]
    exact h.grammatical _ (h'.grammatical tail htail)

theorem Reads.event {R R' : Reading} {event : SaxEvent F}
    (h : R.Allows event) (hread : R.read event = R') : R.Reads R' [event] where
  result := hread
  grammatical rest hrest := ⟨h, by rwa [hread]⟩

/-- The elements of an array, from index `j` on. -/
theorem reads_elements {elements : List (JsonValue F)}
    (ih : ∀ e ∈ elements, ∀ R : Reading, R.TakesValue →
      R.Reads (R.after e) e.saxEvents)
    (key : Bytes) (j : Nat) (outer : List OpenContainer) (leaves : List Bytes) :
    Reads ⟨⟨true, key, j⟩ :: outer, none, leaves⟩
      ⟨⟨true, key, j + elements.length⟩ :: outer, none, leaves ++ childKeys key
        (elements.mapIdx fun i e => (decimal (j + i), e))⟩
      (elements.flatMap JsonValue.saxEvents) := by
  induction elements generalizing j leaves with
  | nil =>
      rw [List.mapIdx_nil, childKeys, List.flatMap_nil, List.append_nil]
      exact .nil _
  | cons e elements ihes =>
      have htakes : TakesValue ⟨⟨true, key, j⟩ :: outer, none, leaves⟩ := by
        intro top htop hobject
        cases htop
        cases hobject
      have hfirst := ih e List.mem_cons_self _ htakes
      have hrest := ihes (fun e' he' => ih e' (List.mem_cons_of_mem _ he'))
        (j + 1) (leaves ++ (Rose.leaves e).map fun l =>
          key ++ pointerText (decimal j :: l.1))
      have hafter : after ⟨⟨true, key, j⟩ :: outer, none, leaves⟩ e
          = ⟨⟨true, key, j + 1⟩ :: outer, none, leaves
            ++ (Rose.leaves e).map fun l =>
              key ++ pointerText (decimal j :: l.1)⟩ := by
        unfold after
        congr 2
        apply List.map_congr_left
        intro l _
        show key ++ ch '/' :: escapeToken (decimal j) ++ pointerText l.1 = _
        rw [List.append_assoc]
        rfl
      rw [hafter] at hfirst
      have hindices : (elements.mapIdx fun i e => (decimal (j + (i + 1)), e))
          = elements.mapIdx fun i e => (decimal (j + 1 + i), e) := by
        congr 1
        funext i e
        rw [Nat.add_comm i 1, Nat.add_assoc]
      rw [List.flatMap_cons, List.mapIdx_cons, hindices, List.length_cons]
      have hboth := hfirst.append hrest
      rw [List.append_assoc, Nat.add_assoc, Nat.add_comm 1] at hboth
      exact hboth

/-- The members of an object. -/
theorem reads_members {members : List (Bytes × JsonValue F)}
    (ih : ∀ m ∈ members, ∀ R : Reading, R.TakesValue →
      R.Reads (R.after m.2) m.2.saxEvents)
    (key : Bytes) (j : Nat) (outer : List OpenContainer) (leaves : List Bytes) :
    Reads ⟨⟨false, key, j⟩ :: outer, none, leaves⟩
      ⟨⟨false, key, j + members.length⟩ :: outer, none,
        leaves ++ childKeys key members⟩
      (members.flatMap fun m => .key m.1 :: m.2.saxEvents) := by
  induction members generalizing j leaves with
  | nil =>
      rw [childKeys, List.flatMap_nil, List.append_nil]
      exact .nil _
  | cons m members ihms =>
      have hname : Reads ⟨⟨false, key, j⟩ :: outer, none, leaves⟩
          ⟨⟨false, key, j⟩ :: outer, some m.1, leaves⟩
          [SaxEvent.key (F := F) m.1] :=
        .event ⟨rfl, _, rfl, rfl⟩ rfl
      have htakes : TakesValue ⟨⟨false, key, j⟩ :: outer, some m.1, leaves⟩ := by
        intro top _ _
        exact Option.some_ne_none _
      have hfirst := ih m List.mem_cons_self _ htakes
      have hrest := ihms (fun m' hm' => ih m' (List.mem_cons_of_mem _ hm'))
        (j + 1) (leaves ++ (Rose.leaves m.2).map fun l =>
          key ++ pointerText (m.1 :: l.1))
      have hafter : after ⟨⟨false, key, j⟩ :: outer, some m.1, leaves⟩ m.2
          = ⟨⟨false, key, j + 1⟩ :: outer, none, leaves
            ++ (Rose.leaves m.2).map fun l =>
              key ++ pointerText (m.1 :: l.1)⟩ := by
        unfold after
        congr 2
        apply List.map_congr_left
        intro l _
        show key ++ ch '/' :: escapeToken m.1 ++ pointerText l.1 = _
        rw [List.append_assoc]
        rfl
      rw [hafter] at hfirst
      rw [List.flatMap_cons, List.length_cons]
      have hboth := (hname.append hfirst).append hrest
      rw [List.append_assoc, Nat.add_assoc, Nat.add_comm 1] at hboth
      exact hboth

/-- A container, from its opening event to its closing one. -/
theorem reads_container {R : Reading} {v : JsonValue F} {isArray : Bool}
    {opening closing : SaxEvent F} {inner : List (SaxEvent F)}
    (htakes : R.TakesValue)
    (hopens : ∀ R : Reading, R.TakesValue → R.Allows opening)
    (hopen : ∀ R : Reading, R.read opening = R.enter isArray)
    (hcloses : ∀ R : Reading, R.Within isArray → R.Allows closing)
    (hclose : ∀ R : Reading, R.read closing = R.leave)
    (hinner : Reads (R.enter isArray)
      ⟨⟨isArray, R.key, v.labelled.length⟩ :: R.begun, none,
        R.leaves ++ childKeys R.key v.labelled⟩ inner) :
    R.Reads (R.after v) (opening :: (inner ++ [closing])) := by
  have hleave : leave ⟨⟨isArray, R.key, v.labelled.length⟩ :: R.begun, none,
      R.leaves ++ childKeys R.key v.labelled⟩ = R.after v := by
    unfold leave after
    dsimp only
    by_cases hempty : v.labelled = []
    · rw [hempty, List.length_nil, if_pos rfl, leaves_leaf hempty]
      simp [childKeys, pointerText]
    · rw [if_neg (by simpa using hempty), leaves_node hempty, List.map_flatMap]
      congr 2
      unfold childKeys
      apply List.flatMap_congr
      intro c _
      rw [List.map_map]
      rfl
  have hlast : Reads ⟨⟨isArray, R.key, v.labelled.length⟩ :: R.begun, none,
      R.leaves ++ childKeys R.key v.labelled⟩ (R.after v) [closing] :=
    .event (hcloses _ ⟨rfl, _, rfl, rfl⟩) ((hclose _).trans hleave)
  exact (Reads.event (hopens R htakes) (hopen R)).append (hinner.append hlast)

theorem after_scalar {v : JsonValue F} (h : v.labelled = []) (R : Reading) :
    R.after v = R.leaf := by
  unfold after leaf
  rw [leaves_leaf h]
  simp [pointerText]

/-- A scalar is its one event. -/
theorem reads_scalar {v : JsonValue F} {event : SaxEvent F} {R : Reading}
    (h : v.labelled = []) (hallows : R.Allows event)
    (hread : R.read event = R.leaf) : R.Reads (R.after v) [event] :=
  .event hallows (hread.trans (after_scalar h R).symm)

/-- The events of a tree are grammatical, and their reading lists the
leaves of the tree. -/
theorem read_tree (v : JsonValue F) :
    ∀ R : Reading, R.TakesValue → R.Reads (R.after v) v.saxEvents := by
  induction v using Rose.induct with
  | h v ih =>
      intro R htakes
      cases v with
      | array elements =>
          rw [JsonValue.saxEvents, JsonValue.eventsOfElements_eq]
          have hih : ∀ e ∈ elements, ∀ R : Reading, R.TakesValue →
              R.Reads (R.after e) e.saxEvents := by
            intro e he
            rw [← JsonValue.indexed_values elements] at he
            obtain ⟨c, hc, rfl⟩ := List.mem_map.mp he
            exact ih c hc
          have hinner := reads_elements hih R.key 0 R.begun R.leaves
          have hlabels : elements.mapIdx (fun i e => (decimal (0 + i), e))
              = (JsonValue.array elements).labelled := by
            show _ = elements.mapIdx fun i e => (decimal i, e)
            congr 1
            funext i e
            rw [Nat.zero_add]
          have hlength : (JsonValue.array elements).labelled.length
              = 0 + elements.length := by
            rw [← hlabels, List.length_mapIdx, Nat.zero_add]
          rw [hlabels, ← hlength] at hinner
          exact reads_container htakes (fun _ h => h) (fun _ => rfl)
            (fun _ h => h) (fun _ => rfl) hinner
      | object members =>
          rw [JsonValue.saxEvents, JsonValue.eventsOfMembers_eq]
          have hinner := reads_members (fun m hm => ih m hm) R.key 0 R.begun
            R.leaves
          rw [Nat.zero_add] at hinner
          exact reads_container htakes (fun _ h => h) (fun _ => rfl)
            (fun _ h => h) (fun _ => rfl) hinner
      | null => exact reads_scalar rfl htakes rfl
      | boolean _ => exact reads_scalar rfl htakes rfl
      | numberInteger _ => exact reads_scalar rfl htakes rfl
      | numberUnsigned _ => exact reads_scalar rfl htakes rfl
      | numberFloat _ => exact reads_scalar rfl htakes rfl
      | string _ => exact reads_scalar rfl htakes rfl

/-- The events of a JSON text, complete or cut short, are grammatical. -/
theorem grammatical_of_tree {v : JsonValue F} {events : List (SaxEvent F)}
    (h : events <+: v.saxEvents) : start.Grammatical events := by
  obtain ⟨rest, hrest⟩ := h
  have htakes : start.TakesValue := by
    intro top htop
    cases htop
  have htree := (read_tree v start htakes).grammatical [] trivial
  rw [List.append_nil, ← hrest] at htree
  exact htree.left

end Reading

end RestifyCapl
