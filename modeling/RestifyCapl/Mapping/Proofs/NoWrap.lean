/-
No counter of the scanner wraps. Every counter is bounded by the bytes
of text read so far (`Counted`): an index by the number of elements, a
pending token by twice its key, and the key prefix of a frame by that
much for each container around it. Where that much for 64 containers is
a number of the machine's (`Fits`), the checked scanner is defined, and
the machine's is the same; 2 MiB of text fit in 32 bits.

The events need not be those of a whole document, only close what they
opened (`Nested`): the parser reports them before it knows.
-/
import RestifyCapl.Mapping.Proofs.Scan

namespace RestifyCapl

open Lib

variable {F : Type}

/-- The longest text the scanner sees: the input limit, doubled by the
conversion. -/
def maxConvertedBytes : Nat := 2 * kMaxJsonInputBytes

-- ================================================================= nesting

def SaxEvent.closes : SaxEvent F → Bool
  | .endObject | .endArray => true
  | _ => false

def SaxEvent.depthAfter (depth : Nat) : SaxEvent F → Nat
  | .startObject | .startArray => depth + 1
  | .endObject | .endArray => depth - 1
  | _ => depth

/-- Nothing is closed that was not opened. -/
def Nested (depth : Nat) : List (SaxEvent F) → Prop
  | [] => True
  | event :: rest =>
      (event.closes = true → 0 < depth) ∧ Nested (event.depthAfter depth) rest

theorem Nested.left {depth : Nat} {events rest : List (SaxEvent F)}
    (h : Nested depth (events ++ rest)) : Nested depth events := by
  induction events generalizing depth with
  | nil => trivial
  | cons event events ih => exact ⟨h.1, ih h.2⟩

/-- The events of a tree come back to the depth they began at. -/
theorem nested_saxEvents (v : JsonValue F) (depth : Nat)
    {rest : List (SaxEvent F)} (hrest : Nested depth rest) :
    Nested depth (v.saxEvents ++ rest) := by
  induction v using Rose.induct generalizing depth rest with
  | h v ih =>
      cases v with
      | array elements =>
          have hall : ∀ (es : List (JsonValue F)) (tail : List (SaxEvent F)),
              (∀ e ∈ es, e ∈ elements) → Nested (depth + 1) tail →
              Nested (depth + 1) (es.flatMap JsonValue.saxEvents ++ tail) := by
            intro es tail hes htail
            induction es with
            | nil => exact htail
            | cons e es ihes =>
                rw [List.flatMap_cons, List.append_assoc]
                have he := hes e (List.mem_cons_self ..)
                rw [← JsonValue.indexed_values elements] at he
                obtain ⟨c, hc, rfl⟩ := List.mem_map.mp he
                apply ih c hc
                exact ihes fun e' he' => hes e' (List.mem_cons_of_mem _ he')
          rw [JsonValue.saxEvents, JsonValue.eventsOfElements_eq,
            List.cons_append, List.append_assoc]
          refine ⟨by simp [SaxEvent.closes], hall _ _ (fun _ h => h) ?_⟩
          exact ⟨fun _ => Nat.succ_pos depth, hrest⟩
      | object members =>
          have hall : ∀ (ms : List (Bytes × JsonValue F))
              (tail : List (SaxEvent F)),
              (∀ m ∈ ms, m ∈ members) → Nested (depth + 1) tail →
              Nested (depth + 1)
                ((ms.flatMap fun m => .key m.1 :: m.2.saxEvents) ++ tail) := by
            intro ms tail hms htail
            induction ms with
            | nil => exact htail
            | cons m ms ihms =>
                rw [List.flatMap_cons, List.append_assoc, List.cons_append]
                refine ⟨by simp [SaxEvent.closes], ?_⟩
                apply ih m (hms m (List.mem_cons_self ..))
                exact ihms fun m' hm' => hms m' (List.mem_cons_of_mem _ hm')
          rw [JsonValue.saxEvents, JsonValue.eventsOfMembers_eq,
            List.cons_append, List.append_assoc]
          refine ⟨by simp [SaxEvent.closes], hall _ _ (fun _ h => h) ?_⟩
          exact ⟨fun _ => Nat.succ_pos depth, hrest⟩
      | _ => exact ⟨by simp [SaxEvent.closes], hrest⟩

-- ======================================================== lengths and bytes

theorem escapeToken_length_le (name : Bytes) :
    (escapeToken name).length ≤ 2 * name.length := by
  induction name with
  | nil => exact Nat.le_refl 0
  | cons c name ih =>
      have hlen : (escapeToken (c :: name)).length
          = (escapeByte c).length + (escapeToken name).length :=
        List.length_append ..
      have hbyte : (escapeByte c).length ≤ 2 := by
        unfold escapeByte
        split
        · exact Nat.le_refl 2
        · split
          · exact Nat.le_refl 2
          · exact Nat.le_succ 1
      rw [hlen, List.length_cons]
      omega

theorem decimal_length_le (n : Nat) : (decimal n).length ≤ n + 1 := by
  induction n using Nat.strong_induction_on with
  | _ n ih =>
      by_cases h : n < 10
      · rw [decimal_lt h, List.length_singleton]
        omega
      · rw [decimal_ge (by omega), List.length_append, List.length_singleton]
        have := ih (n / 10) (by omega)
        omega

namespace LimitCheckingSax

open Lib.SizeArith

/-- Bounds of every counter after `c` bytes of text. -/
structure Counted (s : LimitCheckingSax) (c : Nat) : Prop where
  depth : s.depth ≤ kMaxJsonDepth
  entries : s.entryCount ≤ kMaxFlatEntries
  keys : s.keyTotal ≤ kMaxFlatKeyBytes
  pending : s.pendingTokenBytes ≤ 2 * c
  index : ∀ (i : Nat) top, i < s.depth → s.frames[i]? = some top →
    top.nextIndex ≤ c
  prefixes : ∀ (i : Nat) top, i < s.depth → s.frames[i]? = some top →
    top.prefixBytes ≤ i * (2 * c + 2)

variable {w c : Nat} {s s' : LimitCheckingSax}

theorem Counted.mono {c' : Nat} (hs : s.Counted c) (h : c ≤ c') :
    s.Counted c' where
  depth := hs.depth
  entries := hs.entries
  keys := hs.keys
  pending := hs.pending.trans (Nat.mul_le_mul_left 2 h)
  index i top hi htop := (hs.index i top hi htop).trans h
  prefixes i top hi htop := (hs.prefixes i top hi htop).trans
    (Nat.mul_le_mul_left i (by omega))

theorem counted_init : init.Counted 0 where
  depth := Nat.zero_le _
  entries := Nat.zero_le _
  keys := Nat.zero_le _
  pending := Nat.zero_le _
  index _ _ hi := absurd hi (Nat.not_lt_zero _)
  prefixes _ _ hi := absurd hi (Nat.not_lt_zero _)

theorem pow32 (hw : 32 ≤ w) : 4294967296 ≤ 2 ^ w :=
  Nat.pow_le_pow_right (n := 2) (by omega) hw

/-- The bounds after `c` bytes of text are numbers of `w` bits. -/
def Fits (w c : Nat) : Prop := kMaxJsonDepth * (2 * c + 2) < 2 ^ w

theorem Fits.mono {c' : Nat} (h : Fits w c') (hle : c ≤ c') : Fits w c := by
  have hmul : kMaxJsonDepth * (2 * c + 2) ≤ kMaxJsonDepth * (2 * c' + 2) :=
    Nat.mul_le_mul_left _ (by omega)
  exact Nat.lt_of_le_of_lt hmul h

/-- A converted text fits in 32 bits. -/
theorem fits_converted (hw : 32 ≤ w) (h : c ≤ maxConvertedBytes) :
    Fits w c := by
  have hpow := pow32 hw
  unfold maxConvertedBytes kMaxJsonInputBytes at h
  unfold Fits kMaxJsonDepth
  omega

-- ============================================================= definedness

theorem addKeyBytes_defined (hw : 32 ≤ w) {k : Nat}
    (hkeys : s.keyTotal ≤ kMaxFlatKeyBytes) :
    ∃ r, s.addKeyBytes (checked w) k = some r := by
  have hpow := pow32 hw
  have hlimit : kMaxFlatKeyBytes < 2 ^ w := by
    unfold kMaxFlatKeyBytes
    omega
  unfold addKeyBytes
  rw [checked_sub_some hkeys hlimit]
  show ∃ r, (if k > kMaxFlatKeyBytes - s.keyTotal then _ else _) = some r
  split
  · exact ⟨_, rfl⟩
  · rw [checked_add_some (by omega)]
    exact ⟨_, rfl⟩

theorem countAndAdd_defined (hw : 32 ≤ w) {k : Nat}
    (hentries : s.entryCount ≤ kMaxFlatEntries)
    (hkeys : s.keyTotal ≤ kMaxFlatKeyBytes) :
    ∃ r, s.countAndAdd (checked w) k = some r := by
  have hpow := pow32 hw
  unfold kMaxFlatEntries at hentries
  unfold countAndAdd countEntry
  split
  · exact ⟨_, rfl⟩
  · rw [checked_add_some (by omega)]
    exact addKeyBytes_defined hw hkeys

theorem decimalDigitsLoop_defined (fuel n digits : Nat)
    (h : n + digits < 2 ^ w) :
    ∃ r, decimalDigitsLoop (checked w) fuel n digits = some r := by
  induction fuel generalizing n digits with
  | zero => exact ⟨_, rfl⟩
  | succ fuel ih =>
      unfold decimalDigitsLoop
      split
      · rw [checked_add_some (by omega)]
        exact ih _ _ (by omega)
      · exact ⟨_, rfl⟩

theorem escapedBytes_defined (name : Bytes) (bytes : Nat)
    (h : bytes + name.length < 2 ^ w) :
    ∃ r, escapedBytes (checked w) name bytes = some r := by
  induction name generalizing bytes with
  | nil => exact ⟨_, rfl⟩
  | cons c name ih =>
      rw [List.length_cons] at h
      unfold escapedBytes
      split
      · rw [checked_add_some (by omega)]
        exact ih _ (by omega)
      · exact ih _ (by omega)

/-- The bound on prefixes, one container further in. -/
theorem prefix_bound {i k p token : Nat} (hp : p ≤ i * (2 * c + 2))
    (htoken : token ≤ 2 * c + 1) (hk : k = p + 1 + token) :
    k ≤ (i + 1) * (2 * c + 2) := by
  rw [Nat.succ_mul]
  omega

theorem prefix_lt {i : Nat} (hi : i ≤ kMaxJsonDepth) (hc : Fits w c) :
    i * (2 * c + 2) < 2 ^ w :=
  Nat.lt_of_le_of_lt (Nat.mul_le_mul_right _ hi) hc

/-- The key of the next value is found: no operation on the way wraps. -/
theorem nextKeyBytes_total (hw : 32 ≤ w) (hs : s.Counted c)
    (hc : Fits w c) :
    ∃ r, s.nextKeyBytes (checked w) = some r := by
  have hpow := pow32 hw
  have hdepth := hs.depth
  unfold nextKeyBytes
  split
  · exact ⟨_, rfl⟩
  · rename_i hpos
    have hi : s.depth - 1 < kMaxJsonDepth := by omega
    have hbound := prefix_lt (i := s.depth) hdepth hc
    have hmul : (s.depth - 1) * (2 * c + 2) + (2 * c + 2)
        = s.depth * (2 * c + 2) := by
      rw [← Nat.succ_mul]
      congr 1
      omega
    have htop : s.frames[s.depth - 1]? = some s.frames[s.depth - 1] :=
      Vector.getElem?_eq_getElem hi
    have hpre := hs.prefixes _ _ (by omega) htop
    have hindex := hs.index _ _ (by omega) htop
    have hpending := hs.pending
    have hdigits := decimal_length_le s.frames[s.depth - 1].nextIndex
    unfold kMaxJsonDepth at hdepth
    rw [checked_sub_some (by omega) (by omega)]
    show ∃ r, (s.frames[s.depth - 1]? >>= _) = some r
    rw [htop]
    show ∃ r, ((checked w).add _ 1 >>= _) = some r
    rw [checked_add_some (by omega)]
    show ∃ r, (if s.frames[s.depth - 1].isArray = true then _ else _)
      = some r
    split
    · obtain ⟨token, htoken⟩ := decimalDigitsLoop_defined (w := w)
        (s.frames[s.depth - 1].nextIndex + 1)
        s.frames[s.depth - 1].nextIndex 1 (by omega)
      have hlen := decimalDigits_some htoken
      have hset : ∀ frame, ∃ s', s.setFrame (s.depth - 1) frame
          = some s' := by
        intro frame
        exact ⟨_, dif_pos hi⟩
      obtain ⟨s', hs'⟩ := hset { s.frames[s.depth - 1] with
        nextIndex := s.frames[s.depth - 1].nextIndex + 1 }
      show ∃ r, (decimalDigitsLoop _ _ _ _ >>= _) = some r
      rw [htoken]
      show ∃ r, ((checked w).add _ 1 >>= _) = some r
      rw [checked_add_some (by omega)]
      show ∃ r, (s.setFrame _ _ >>= _) = some r
      rw [hs']
      show ∃ r, ((checked w).add _ token >>= _) = some r
      rw [checked_add_some (by omega)]
      exact ⟨_, rfl⟩
    · rw [checked_add_some (by omega)]
      exact ⟨_, rfl⟩

/-- An array's frame moves on to the next index within the bounds of one
more byte. -/
theorem Counted.setIndex {i : Nat} {top : KeyFrame} (hs : s.Counted c)
    (hi : i < s.depth) (htop : s.frames[i]? = some top)
    (hset : s.setFrame i { top with nextIndex := top.nextIndex + 1 }
      = some s') :
    s'.depth = s.depth ∧ s'.Counted (c + 1) := by
  obtain ⟨hlt, rfl⟩ := setFrame_some hset
  have hindex := hs.index i top hi htop
  have hmono := hs.mono (Nat.le_succ c)
  refine ⟨rfl, hmono.depth, hmono.entries, hmono.keys, hmono.pending, ?_, ?_⟩
  · intro j frame hj hframe
    rw [Vector.getElem?_set] at hframe
    split at hframe
    · cases hframe
      exact Nat.succ_le_succ hindex
    · exact hmono.index j frame hj hframe
  · intro j frame hj hframe
    rw [Vector.getElem?_set] at hframe
    split at hframe
    next heq =>
      cases hframe
      rw [← heq]
      exact hmono.prefixes i top hi htop
    next => exact hmono.prefixes j frame hj hframe

/-- The key of the next value is found and within its bound, and the
scanner stays within its bounds. -/
theorem nextKeyBytes_defined (hw : 32 ≤ w) (hs : s.Counted c)
    (hc : Fits w c) :
    ∃ k s', s.nextKeyBytes (checked w) = some (k, s')
      ∧ k ≤ s.depth * (2 * c + 2) ∧ s'.depth = s.depth
      ∧ s'.Counted (c + 1) := by
  obtain ⟨⟨k, s'⟩, hnext⟩ := nextKeyBytes_total hw hs hc
  refine ⟨k, s', hnext, ?_⟩
  rcases nextKeyBytes_some hnext with ⟨-, rfl, rfl⟩ |
    ⟨i, top, hi, htop, ⟨-, hk, hset⟩ | ⟨-, hk, rfl⟩⟩
  · exact ⟨Nat.zero_le _, rfl, hs.mono (Nat.le_succ c)⟩
  · -- an array: its frame moves on to the next index
    have hpre := hs.prefixes i top (by omega) htop
    have hindex := hs.index i top (by omega) htop
    have hdigits := decimal_length_le top.nextIndex
    refine ⟨?_, hs.setIndex (by omega) htop hset⟩
    rw [hi]
    exact prefix_bound hpre (by omega) hk
  · have hpre := hs.prefixes i top (by omega) htop
    have hpending := hs.pending
    refine ⟨?_, rfl, hs.mono (Nat.le_succ c)⟩
    rw [hi]
    exact prefix_bound hpre (by omega) hk

-- ================================================================ one step

/-- What a handler gives within the bounds: a result, and after `true`
the bounds again. -/
def StepDefined (w : Nat) (s : LimitCheckingSax) (c : Nat)
    (event : SaxEvent F) : Prop :=
  ∃ fed s', s.handle (checked w) event = some (fed, s')
    ∧ (fed = true → s'.depth = event.depthAfter s.depth
      ∧ s'.Counted (c + event.bytes))

theorem leaf_defined (hw : 32 ≤ w) (hs : s.Counted c)
    (hc : Fits w c) :
    ∃ fed s', s.leaf (checked w) = some (fed, s')
      ∧ (fed = true → s'.depth = s.depth ∧ s'.Counted (c + 1)) := by
  have hcleared : Counted { s with previousEventOpenedContainer := false } c :=
    ⟨hs.depth, hs.entries, hs.keys, hs.pending, hs.index, hs.prefixes⟩
  obtain ⟨k, s₁, hnext, -, hdepth, hs₁⟩ :=
    nextKeyBytes_defined hw hcleared hc
  obtain ⟨⟨fed, s'⟩, hadd⟩ :=
    countAndAdd_defined (k := k) hw hs₁.entries hs₁.keys
  have hleaf : s.leaf (checked w) = some (fed, s') :=
    Option.bind_eq_some_iff.mpr ⟨_, hnext, hadd⟩
  refine ⟨fed, s', hleaf, ?_⟩
  intro hfed
  subst hfed
  obtain ⟨hlt, hle, rfl⟩ := countAndAdd_true hadd
  exact ⟨hdepth, hs₁.depth, hlt, hle, hs₁.pending, hs₁.index, hs₁.prefixes⟩

theorem openContainer_defined (hw : 32 ≤ w) (hs : s.Counted c)
    (hc : Fits w c) (isArray : Bool) :
    ∃ fed s', s.openContainer (checked w) isArray = some (fed, s')
      ∧ (fed = true → s'.depth = s.depth + 1 ∧ s'.Counted (c + 1)) := by
  have hpow := pow32 hw
  unfold openContainer
  split
  · exact ⟨false, _, rfl, fun h => by cases h⟩
  · rename_i hlt
    obtain ⟨k, s₁, hnext, hk, hdepth, hs₁⟩ := nextKeyBytes_defined hw hs hc
    have hi : s₁.depth < kMaxJsonDepth := by omega
    have hset : s₁.setFrame s₁.depth ⟨isArray, 0, k⟩
        = some { s₁ with
            frames := s₁.frames.set s₁.depth ⟨isArray, 0, k⟩ hi } :=
      dif_pos hi
    have hadd : (checked w).add s₁.depth 1 = some (s₁.depth + 1) := by
      unfold kMaxJsonDepth at hi
      exact checked_add_some (by omega)
    rw [hnext]
    show ∃ fed s', (s₁.setFrame s₁.depth ⟨isArray, 0, k⟩ >>= _) = _ ∧ _
    rw [hset]
    show ∃ fed s', ((checked w).add s₁.depth 1 >>= _) = _ ∧ _
    rw [hadd]
    refine ⟨true, _, rfl, fun _ => ⟨by rw [← hdepth], ?_⟩⟩
    refine ⟨hi, hs₁.entries, hs₁.keys, hs₁.pending, ?_, ?_⟩
    · intro j frame hj hframe
      rw [Vector.getElem?_set] at hframe
      split at hframe
      · cases hframe
        exact Nat.zero_le _
      · exact hs₁.index j frame (by dsimp only at hj; omega) hframe
    · intro j frame hj hframe
      rw [Vector.getElem?_set] at hframe
      split at hframe
      next heq =>
        cases hframe
        rw [← heq, hdepth]
        exact hk.trans (Nat.mul_le_mul_left _ (by omega))
      next =>
        exact hs₁.prefixes j frame (by dsimp only at hj; omega) hframe

theorem closeContainer_defined (hw : 32 ≤ w) (hs : s.Counted c)
    (hpos : 0 < s.depth) :
    ∃ fed s', s.closeContainer (checked w) = some (fed, s')
      ∧ (fed = true → s'.depth = s.depth - 1 ∧ s'.Counted (c + 1)) := by
  have hpow := pow32 hw
  have hdepth := hs.depth
  have hi : s.depth - 1 < kMaxJsonDepth := by omega
  have hsome : ∃ r, s.closeContainer (checked w) = some r := by
    unfold closeContainer
    unfold kMaxJsonDepth at hdepth
    rw [checked_sub_some (by omega) (by omega)]
    show ∃ r, (if s.previousEventOpenedContainer = true then _ else _)
      = some r
    split
    · show ∃ r, (s.frames[s.depth - 1]? >>= _) = some r
      rw [Vector.getElem?_eq_getElem hi]
      exact countAndAdd_defined hw hs.entries hs.keys
    · exact ⟨_, rfl⟩
  obtain ⟨⟨fed, s'⟩, hclose⟩ := hsome
  refine ⟨fed, s', hclose, ?_⟩
  intro hfed
  subst hfed
  have hmono := hs.mono (Nat.le_succ c)
  obtain ⟨d, hd, ⟨-, rfl⟩ | ⟨-, top, htop, hlt, hle, rfl⟩⟩ :=
    closeContainer_true hclose
  · exact ⟨by dsimp only; omega, by dsimp only; omega, hs.entries, hs.keys,
      hmono.pending,
      fun j frame hj => hmono.index j frame (by dsimp only at hj; omega),
      fun j frame hj => hmono.prefixes j frame (by dsimp only at hj; omega)⟩
  · exact ⟨by dsimp only; omega, by dsimp only; omega, hlt, hle,
      hmono.pending,
      fun j frame hj => hmono.index j frame (by dsimp only at hj; omega),
      fun j frame hj => hmono.prefixes j frame (by dsimp only at hj; omega)⟩

theorem key_defined (hs : s.Counted c) {name : Bytes}
    (hc : Fits w (c + (1 + name.length))) :
    ∃ fed s', s.key (checked w) name = some (fed, s')
      ∧ (fed = true → s'.depth = s.depth
        ∧ s'.Counted (c + (1 + name.length))) := by
  have hsome : ∃ r, s.key (checked w) name = some r := by
    unfold key
    dsimp only
    split
    · exact ⟨_, rfl⟩
    · unfold Fits kMaxJsonDepth at hc
      obtain ⟨bytes, hbytes⟩ := escapedBytes_defined (w := w) name name.length
        (by omega)
      rw [hbytes]
      exact ⟨_, rfl⟩
  obtain ⟨⟨fed, s'⟩, hkey⟩ := hsome
  refine ⟨fed, s', hkey, ?_⟩
  intro hfed
  subst hfed
  obtain ⟨-, rfl⟩ := key_true hkey
  have hmono := hs.mono (Nat.le_add_right c (1 + name.length))
  have hlen := escapeToken_length_le name
  exact ⟨rfl, hs.depth, hs.entries, hs.keys, by dsimp only; omega,
    hmono.index, hmono.prefixes⟩

theorem handle_defined (hw : 32 ≤ w) (hs : s.Counted c) (event : SaxEvent F)
    (hc : Fits w (c + event.bytes))
    (hcloses : event.closes = true → 0 < s.depth) :
    StepDefined w s c event := by
  cases event with
  | binary => exact ⟨false, _, rfl, fun h => by cases h⟩
  | startObject =>
      exact openContainer_defined hw hs (hc.mono (Nat.le_add_right c 1)) false
  | startArray =>
      exact openContainer_defined hw hs (hc.mono (Nat.le_add_right c 1)) true
  | endObject => exact closeContainer_defined hw hs (hcloses rfl)
  | endArray => exact closeContainer_defined hw hs (hcloses rfl)
  | key name => exact key_defined hs hc
  | _ => exact leaf_defined hw hs (hc.mono (Nat.le_add_right c 1))

/-- The checked scanner is defined on all the events a text within the
limit can cause. -/
theorem feed_defined (hw : 32 ≤ w) {events : List (SaxEvent F)}
    (hs : s.Counted c) (hnested : Nested s.depth events)
    (hc : Fits w (c + eventBytes events)) :
    ∃ r, s.feed (checked w) events = some r := by
  induction events generalizing s c with
  | nil => exact ⟨_, rfl⟩
  | cons event events ih =>
      have hsum : eventBytes (event :: events)
          = event.bytes + eventBytes events := rfl
      rw [hsum] at hc
      obtain ⟨fed, s', hstep, hnext⟩ :=
        handle_defined hw hs event (hc.mono (by omega)) hnested.1
      unfold feed
      rw [hstep]
      cases fed with
      | false => exact ⟨_, rfl⟩
      | true =>
          obtain ⟨hdepth, hs'⟩ := hnext rfl
          apply ih hs'
          · rw [hdepth]
            exact hnested.2
          · rwa [Nat.add_assoc]

end LimitCheckingSax

end RestifyCapl
