/-
What `restLibJsonDump` writes. The document it was called for is held, or
another node has discarded it meanwhile; a discarded one does not come
back while its id is not issued again. So the lines of a dump are those
of the entries, in their order, for as many calls as came before the
discard, and from there on say that the document is gone.
-/
import RestifyCapl.Mapping.JsonDump
import RestifyCapl.Mapping.Proofs.RoundTrip

namespace RestifyCapl

open Lib

variable {F ρ : Type} [JsonFloat F]

-- ================================================================ the lines

/-- The line of an entry: its key, its value up to a NUL and the name of
its type, where both texts leave room for their terminators. -/
def listedLine (index : Nat) (e : FlatEntry) : Bytes :=
  if e.key.length < 512 ∧ e.value.length < 512 then
    keyValueLine e.key (e.value.takeWhile (· ≠ 0)) (typeName e.type.toInt32)
  else doesNotFitLine (UInt32.ofNat index)

/-- The line of an entry whose document is gone. -/
def lostLine (index : Nat) : Bytes :=
  readFailedLine (UInt32.ofNat index) Status.unknownDocumentId.toInt32

/-- The first `i` lines, the first `k` of them read while the document was
held. -/
def dumpLines (entries : List FlatEntry) (k i : Nat) : List Bytes :=
  (entries.take k).zipIdx.map (fun e => listedLine e.2 e.1)
    ++ (List.range' k (i - k)).map lostLine

/-- One more entry, read while the document is held. -/
theorem dumpLines_listed {entries : List FlatEntry} {i : Nat} {e : FlatEntry}
    (he : entries[i]? = some e) :
    dumpLines entries (i + 1) (i + 1)
      = dumpLines entries i i ++ [listedLine i e] := by
  have hlen : (entries.take i).length = i := by
    have := (List.getElem?_eq_some_iff.mp he).1
    rw [List.length_take]
    omega
  unfold dumpLines
  simp only [Nat.sub_self, List.range'_zero, List.map_nil, List.append_nil]
  rw [List.take_add_one, he, Option.toList_some, List.zipIdx_append,
    List.map_append, hlen]
  simp

/-- One more entry, when the document is gone. -/
theorem dumpLines_lost {entries : List FlatEntry} {k i : Nat} (hki : k ≤ i) :
    dumpLines entries k (i + 1) = dumpLines entries k i ++ [lostLine i] := by
  have hrange : List.range' k (i + 1 - k) = List.range' k (i - k) ++ [i] := by
    rw [Nat.succ_sub hki, List.range'_concat]
    simp only [Nat.one_mul]
    rw [Nat.add_sub_cancel' hki]
  unfold dumpLines
  rw [hrange, List.map_append, List.map_singleton, List.append_assoc]

theorem printText_store {b : CharBuffer} {text : Bytes}
    (h : b.unusable = false) :
    printText (b.store (text ++ [0])) = text.takeWhile (· ≠ 0) := by
  obtain ⟨m, hm, -, -⟩ := CharBuffer.usable_mem h
  unfold printText
  simp only [CharBuffer.store_mem, hm, Option.map_some, Option.getD_some,
    List.append_assoc, List.singleton_append]
  rw [List.takeWhile_append]
  split
  next hall =>
    rw [List.takeWhile_cons_of_neg (by simp), List.append_nil]
    exact (List.IsPrefix.eq_of_length (List.takeWhile_prefix _) hall).symm
  next => rfl

-- ================================================================= one read

namespace JsonDump

omit [JsonFloat F]

theorem Local.store {b : CharBuffer} (h : Local b) (bytes : Bytes) :
    Local (b.store bytes) := by
  constructor
  · rw [CharBuffer.store_unusable]
    exact h.usable
  · rw [CharBuffer.store_size]
    exact h.size

theorem Local.room {b : CharBuffer} (h : Local b) : b.size.toNat = 512 := by
  rw [h.size]
  rfl

/-- Copying a text into a local keeps it one. -/
theorem Local.copied {b : CharBuffer} (h : Local b) (text : Bytes) :
    Local (copyToBuffer text b).2 := by
  by_cases hlen : b.size.toNat ≤ text.length
  · rw [copyToBuffer_small h.usable hlen]
    exact h.store [0]
  · rw [copyToBuffer_fits h.usable (by omega)]
    exact h.store (text ++ [0])

/-- Copying an entry into the locals, and the line that comes of it. -/
theorem entryLine_copied {e : FlatEntry} {key value : CharBuffer}
    (hnul : 0 ∉ e.key) (hkey : Local key) (hvalue : Local value)
    (index : Nat) :
    Local (copyEntryTexts e key value).2.1
      ∧ Local (copyEntryTexts e key value).2.2
      ∧ entryLine (UInt32.ofNat index) (copyEntryTexts e key value).1.toInt32
          (copyEntryTexts e key value).2.1 (copyEntryTexts e key value).2.2
          (valueTypeOut
            (if (copyEntryTexts e key value).1 = .ok then some e.type
              else none))
        = listedLine index e := by
  have hkeyText : e.key.takeWhile (· ≠ 0) = e.key := by
    apply List.takeWhile_eq_self_iff.mpr
    intro c hc
    have : c ≠ 0 := fun h0 => hnul (h0 ▸ hc)
    simpa using this
  by_cases hfits : e.key.length < 512 ∧ e.value.length < 512
  · have hkeyFits : e.key.length < key.size.toNat := hkey.room ▸ hfits.1
    have hvalueFits : e.value.length < value.size.toNat :=
      hvalue.room ▸ hfits.2
    have hcopy : copyEntryTexts e key value
        = (.ok, key.store (e.key ++ [0]), value.store (e.value ++ [0])) := by
      unfold copyEntryTexts
      rw [hkey.usable, hvalue.usable, copyToBuffer_fits hkey.usable hkeyFits,
        copyToBuffer_fits hvalue.usable hvalueFits]
      rfl
    rw [hcopy]
    refine ⟨hkey.store _, hvalue.store _, ?_⟩
    unfold listedLine entryLine
    dsimp only
    rw [if_pos hfits, if_neg (by decide), if_neg (by decide),
      printText_store hkey.usable, printText_store hvalue.usable, hkeyText]
    rfl
  · have hcopy : copyEntryTexts e key value
        = (.bufferTooSmall, (copyToBuffer e.key key).2.store [0],
          (copyToBuffer e.value value).2.store [0]) := by
      unfold copyEntryTexts
      rw [hkey.usable, hvalue.usable, if_neg (by decide)]
      dsimp only
      rw [if_neg]
      rw [copyToBuffer_ok_iff, copyToBuffer_ok_iff, hkey.room, hvalue.room]
      intro h
      exact hfits ⟨h.1.2, h.2.2⟩
    rw [hcopy]
    refine ⟨(hkey.copied _).store _, (hvalue.copied _).store _, ?_⟩
    unfold listedLine entryLine
    dsimp only
    rw [if_neg hfits, if_pos (by decide)]

end JsonDump

-- ============================================================ the document

section Document

variable {t t' : DocumentMap F} {a : StoreAction F ρ} {b : StoreAnswer F ρ}
variable {id : UInt32}

/-- A discard takes the document out. -/
theorem StoreSpec.discards (hspec : StoreSpec t a b t')
    (h : Discards id a) : t'.documents.lookup id = none := by
  cases a with
  | discard documentId =>
      have h : documentId = id := h
      unfold StoreSpec at hspec
      dsimp only at hspec
      split at hspec
      next =>
        rw [hspec.2, h]
        exact Finmap.lookup_erase id _
      next hmem =>
        rw [hspec.2, ← h]
        exact Finmap.lookup_eq_none.mpr hmem
  | discardAll =>
      rw [hspec.2]
      exact Finmap.lookup_empty id
  | insert | count | readEntry | readValue | readWithTokens => cases h

/-- A document that is gone stays gone until its id is issued again. -/
theorem StoreSpec.stays_gone (hspec : StoreSpec t a b t')
    (h : t.documents.lookup id = none) (hnew : issued? (a, b) ≠ some id) :
    t'.documents.lookup id = none := by
  cases a with
  | insert result ticks =>
      unfold StoreSpec at hspec
      dsimp only at hspec
      split at hspec
      · rw [hspec.2]
        exact h
      · obtain ⟨id', -, -, rfl, rfl⟩ := hspec
        have hne : id' ≠ id := fun heq => hnew (congrArg some heq)
        rw [Finmap.lookup_insert_of_ne _ hne.symm]
        exact h
  | discard documentId =>
      unfold StoreSpec at hspec
      dsimp only at hspec
      split at hspec
      · rw [hspec.2]
        by_cases heq : id = documentId
        · rw [heq]
          exact Finmap.lookup_erase documentId _
        · rw [Finmap.lookup_erase_ne heq]
          exact h
      · rw [hspec.2]
        exact h
  | discardAll =>
      rw [hspec.2]
      exact Finmap.lookup_empty id
  | count => exact hspec.1 ▸ h
  | readEntry => exact hspec.1 ▸ h
  | readValue => exact hspec.1 ▸ h
  | readWithTokens => exact hspec.1 ▸ h

/-- No document is held under `id`. -/
def Lost (id : UInt32) (s : JsonDocumentStore F) : Prop :=
  s.findLiveSlotLocked id = none

omit [JsonFloat F] in
theorem lost_iff {s : JsonDocumentStore F}
    (hs : JsonDocumentStore.Represents s t) :
    Lost id s ↔ t.documents.lookup id = none := by
  unfold Lost
  rw [hs.lookup_eq, Option.map_eq_none_iff]

/-- The document `r` is held under `id`, until it is discarded. -/
def HeldOrGone (id : UInt32) (r : FlattenResult F) (gone : Prop)
    (s : JsonDocumentStore F) : Prop :=
  ∃ t, JsonDocumentStore.Represents s t
    ∧ (¬ gone ∧ t.documents.lookup id = some r ∨ gone ∧ Lost id s)

/-- A call of another node, which does not issue the id. -/
theorem HeldOrGone.other {s s' : JsonDocumentStore F} {r : FlattenResult F}
    {gone : Prop} (h : HeldOrGone id r gone s)
    (hst : s.step a = some (b, s')) (hnew : issued? (a, b) ≠ some id) :
    HeldOrGone id r (gone ∨ Discards id a) s' := by
  obtain ⟨t, ht, hlookup⟩ := h
  obtain ⟨t', hspec, ht'⟩ := JsonDocumentStore.represents_step ht hst
  refine ⟨t', ht', ?_⟩
  rcases hlookup with ⟨hnot, hheld⟩ | ⟨hgone, hlost⟩
  · by_cases hdiscard : Discards id a
    · exact Or.inr ⟨Or.inr hdiscard,
        (lost_iff ht').mpr (hspec.discards hdiscard)⟩
    · refine Or.inl ⟨?_, hspec.keeps hheld hdiscard⟩
      exact fun hor => hor.elim hnot hdiscard
  · refine Or.inr ⟨Or.inl hgone, (lost_iff ht').mpr ?_⟩
    exact hspec.stays_gone ((lost_iff ht).mp hlost) hnew

end Document

-- ================================================================= progress

namespace JsonDump

open JsonDocumentStore

/-- How far a dump is after `calls` of its own, the first `held` of them
made while the document was held. -/
inductive Progress (entries : List FlatEntry) (held calls : Nat)
    (d : JsonDump) : Prop
  | entered (hpoint : d.point = .count) (hwritten : d.written = [])
      (hheld : held = 0) (hcalls : calls = 0)
  | refused (hpoint : d.point = .returned)
      (hwritten : d.written
        = [countFailedLine Status.unknownDocumentId.toInt32])
      (hheld : held = 0) (hcalls : calls = 1)
  | listing (k : Nat) (hk : k ≤ d.index.toNat)
      (hindex : d.index.toNat ≤ entries.length)
      (hcount : d.count.toNat = entries.length)
      (hpoint : d.point
        = if d.index < d.count then .readEntry else .returned)
      (hwritten : d.written = dumpLines entries k d.index.toNat)
      (hheld : held = k + 1) (hcalls : calls = d.index.toNat + 1)

/-- A dump of `id`, with its arrays at hand. -/
structure Dumps (id : UInt32) (entries : List FlatEntry) (held calls : Nat)
    (d : JsonDump) : Prop where
  document : d.documentId = id
  key : Local d.keyText
  value : Local d.value
  progress : Progress entries held calls d

variable {d d' : JsonDump} {id : UInt32} {entries : List FlatEntry}
variable {held held' calls : Nat}

omit [JsonFloat F] in
theorem Dumps.at_count (hd : Dumps id entries held calls d)
    (hpoint : d.point = .count) : d.written = [] ∧ held = 0 ∧ calls = 0 := by
  cases hd.progress with
  | entered _ hwritten hheld hcalls => exact ⟨hwritten, hheld, hcalls⟩
  | refused hpoint' =>
      rw [hpoint] at hpoint'
      cases hpoint'
  | listing k _ _ _ hpoint' =>
      rw [hpoint] at hpoint'
      split at hpoint' <;> cases hpoint'

omit [JsonFloat F] in
theorem Dumps.at_entry (hd : Dumps id entries held calls d)
    (hpoint : d.point = .readEntry) :
    d.index.toNat < entries.length ∧ d.count.toNat = entries.length
      ∧ calls = d.index.toNat + 1
      ∧ ∃ k ≤ d.index.toNat, held = k + 1
        ∧ d.written = dumpLines entries k d.index.toNat := by
  cases hd.progress with
  | entered hpoint' =>
      rw [hpoint] at hpoint'
      cases hpoint'
  | refused hpoint' =>
      rw [hpoint] at hpoint'
      cases hpoint'
  | listing k hk _ hcount hpoint' hwritten hheld hcalls =>
      rw [hpoint] at hpoint'
      split at hpoint'
      next hlt =>
        have hlt := UInt32.lt_iff_toNat_lt.mp hlt
        exact ⟨by omega, hcount, hcalls, k, hk, hheld, hwritten⟩
      next => cases hpoint'

omit [JsonFloat F] in
/-- An entry's call, once it gave its line. -/
theorem Dumps.wrote {k : Nat} {keyText value : CharBuffer} {line : Bytes}
    (hd : Dumps id entries held calls d) (hpoint : d.point = .readEntry)
    (hkey : Local keyText) (hvalue : Local value)
    (hk : k ≤ d.index.toNat + 1)
    (hwritten : d.written ++ [line]
      = dumpLines entries k (d.index.toNat + 1)) :
    Dumps id entries (k + 1) (calls + 1)
      (loop { d with
        keyText := keyText
        value := value
        written := d.written ++ [line]
        index := d.index + 1 }) := by
  obtain ⟨hlt, hcount, hcalls, -⟩ := hd.at_entry hpoint
  have hnext : (d.index + 1).toNat = d.index.toNat + 1 := by
    have hbound := d.count.toNat_lt
    rw [UInt32.toNat_add]
    apply Nat.mod_eq_of_lt
    show d.index.toNat + 1 < 2 ^ 32
    omega
  refine ⟨hd.document, hkey, hvalue, ?_⟩
  apply Progress.listing k
  case hk => exact hnext ▸ hk
  case hindex =>
    show (d.index + 1).toNat ≤ _
    omega
  case hcount => exact hcount
  case hpoint => rfl
  case hwritten =>
    show d.written ++ [line] = dumpLines entries k (d.index + 1).toNat
    rw [hnext]
    exact hwritten
  case hheld => rfl
  case hcalls =>
    show calls + 1 = (d.index + 1).toNat + 1
    rw [hnext, hcalls]

variable {s : JsonDocumentStore F} {r : FlattenResult F} {gone : Prop}
variable [Decidable gone]

omit [JsonFloat F] in
/-- The call for the count. -/
theorem Dumps.counts (hs : HeldOrGone id r gone s)
    (hd : Dumps id r.entries held calls d)
    (hfew : r.entries.length < 2 ^ 32) (hpoint : d.point = .count)
    (hst : d.advance s = some d') :
    Dumps id r.entries (if gone then held else calls + 1) (calls + 1) d' := by
  obtain ⟨hwritten, hnone, hcalls⟩ := hd.at_count hpoint
  obtain ⟨t, ht, ⟨hnot, hheld⟩ | ⟨hgone, hlost⟩⟩ := hs
  · rw [if_neg hnot]
    obtain ⟨i, hfind, -, -, hresult⟩ := ht.find_some hheld
    have hcall : countJsonEntries s d.documentId
        = (.ok, UInt32.ofNat r.entries.length) := by
      unfold countJsonEntries JsonDocumentStore.count
      rw [hd.document, hfind, ← hresult]
      rfl
    unfold advance at hst
    rw [hpoint] at hst
    dsimp only at hst
    rw [hcall] at hst
    dsimp only at hst
    rw [if_neg (by decide)] at hst
    cases hst
    refine ⟨hd.document, hd.key, hd.value, ?_⟩
    apply Progress.listing 0
    case hk => exact Nat.zero_le _
    case hindex => exact Nat.zero_le _
    case hcount => exact UInt32.toNat_ofNat_of_lt' hfew
    case hpoint => rfl
    case hwritten => exact hwritten
    case hheld => rw [hcalls]
    case hcalls =>
      show calls + 1 = 0 + 1
      rw [hcalls]
  · rw [if_pos hgone]
    have hcall : countJsonEntries s d.documentId
        = (.unknownDocumentId, 0) := by
      have hfind : s.findLiveSlotLocked id = none := hlost
      unfold countJsonEntries JsonDocumentStore.count
      rw [hd.document, hfind]
      rfl
    unfold advance at hst
    rw [hpoint] at hst
    dsimp only at hst
    rw [hcall] at hst
    dsimp only at hst
    rw [if_pos (by decide)] at hst
    cases hst
    refine ⟨hd.document, hd.key, hd.value, ?_⟩
    apply Progress.refused rfl
    · show d.written ++ _ = _
      rw [hwritten]
      rfl
    · exact hnone
    · rw [hcalls]

omit [JsonFloat F] in
/-- The call for an entry. -/
theorem Dumps.reads (hs : HeldOrGone id r gone s)
    (hd : Dumps id r.entries held calls d) (hall : ¬ gone → held = calls)
    (hnul : ∀ e ∈ r.entries, 0 ∉ e.key) (hpoint : d.point = .readEntry)
    (hst : d.advance s = some d') :
    Dumps id r.entries (if gone then held else calls + 1) (calls + 1) d' := by
  obtain ⟨hlt, hcount, hcalls, k, hk, hheldCalls, hwritten⟩ :=
    hd.at_entry hpoint
  unfold advance at hst
  rw [hpoint] at hst
  dsimp only at hst
  obtain ⟨t, ht, ⟨hnot, hheld⟩ | ⟨hgone, hnone⟩⟩ := hs
  · -- a document that is held has been held throughout
    obtain ⟨i, hfind, -, -, hresult⟩ := ht.find_some hheld
    have hki : k = d.index.toNat := by
      have := hall hnot
      omega
    obtain ⟨e, he⟩ : ∃ e, r.entries[d.index.toNat]? = some e :=
      ⟨_, List.getElem?_eq_getElem hlt⟩
    obtain ⟨hkey, hvalue, hline⟩ := entryLine_copied
      (hnul e (List.mem_of_getElem? he)) hd.key hd.value d.index.toNat
    have hcall : readJsonEntry s d.documentId d.index d.keyText d.value
        = ((copyEntryTexts e d.keyText d.value).1,
          (copyEntryTexts e d.keyText d.value).2.1,
          (copyEntryTexts e d.keyText d.value).2.2,
          valueTypeOut
            (if (copyEntryTexts e d.keyText d.value).1 = .ok then some e.type
              else none)) := by
      unfold readJsonEntry readEntry readEntryOf
      rw [hd.document, hfind]
      dsimp only
      rw [hresult, he]
    rw [hcall] at hst
    cases hst
    rw [if_neg hnot, hcalls]
    rw [hcalls] at hd
    apply hd.wrote hpoint hkey hvalue (Nat.le_refl _)
    rw [dumpLines_listed he, hwritten, hki, ← hline, UInt32.ofNat_toNat]
  · -- the document is gone, and the arrays are left alone
    have hcall : readJsonEntry s d.documentId d.index d.keyText d.value
        = (.unknownDocumentId, d.keyText, d.value, 0) := by
      have hfind : s.findLiveSlotLocked id = none := hnone
      unfold readJsonEntry readEntry
      rw [hd.document, hfind]
      rfl
    rw [hcall] at hst
    cases hst
    rw [if_pos hgone, hheldCalls]
    apply hd.wrote hpoint hd.key hd.value (Nat.le_succ_of_le hk)
    rw [dumpLines_lost hk, hwritten]
    unfold lostLine entryLine
    dsimp only
    rw [UInt32.ofNat_toNat, if_neg (by decide), if_pos (by decide)]

-- ============================================================ a whole dump

/-- What the other nodes did. -/
def elsewhere
    (h : List (Option (StoreAction F ρ) × Option (StoreAnswer F ρ))) :
    List (StoreAction F ρ × StoreAnswer F ρ) :=
  h.filterMap fun e => e.1.bind fun a => e.2.map (Prod.mk a)

/-- How many calls the dump made. -/
def dumpCalls
    (h : List (Option (StoreAction F ρ) × Option (StoreAnswer F ρ))) : Nat :=
  h.countP fun e => e.1.isNone

instance (id : UInt32) : DecidablePred (Discards (F := F) (ρ := ρ) id)
  | .discard documentId => inferInstanceAs (Decidable (documentId = id))
  | .discardAll => isTrue trivial
  | .insert .. | .count .. | .readEntry .. | .readValue ..
  | .readWithTokens .. => isFalse fun h => h

/-- A call of another node that discards the document. -/
def DiscardsIn (id : UInt32)
    (e : Option (StoreAction F ρ) × Option (StoreAnswer F ρ)) : Prop :=
  ∃ a ∈ e.1, Discards id a

instance (id : UInt32)
    (e : Option (StoreAction F ρ) × Option (StoreAnswer F ρ)) :
    Decidable (DiscardsIn id e) :=
  inferInstanceAs (Decidable (∃ a ∈ e.1, Discards id a))

/-- Another node has discarded the document. -/
def Gone (id : UInt32)
    (h : List (Option (StoreAction F ρ) × Option (StoreAnswer F ρ))) : Prop :=
  ∃ e ∈ h, DiscardsIn id e

instance (id : UInt32)
    (h : List (Option (StoreAction F ρ) × Option (StoreAnswer F ρ))) :
    Decidable (Gone id h) :=
  inferInstanceAs (Decidable (∃ e ∈ h, DiscardsIn id e))

/-- How many calls the dump made before the document was discarded. -/
def heldCalls (id : UInt32)
    (h : List (Option (StoreAction F ρ) × Option (StoreAnswer F ρ))) : Nat :=
  dumpCalls (h.takeWhile fun e => !decide (DiscardsIn id e))

section History

omit [JsonFloat F]

variable {h : List (Option (StoreAction F ρ) × Option (StoreAnswer F ρ))}

@[simp] theorem elsewhere_other (a : StoreAction F ρ) (b : StoreAnswer F ρ) :
    elsewhere (h ++ [(some a, some b)]) = elsewhere h ++ [(a, b)] := by
  simp [elsewhere]

@[simp] theorem elsewhere_dump :
    elsewhere (h ++ [(none, none)]) = elsewhere h := by
  simp [elsewhere]

@[simp] theorem dumpCalls_other (a : StoreAction F ρ) (b : StoreAnswer F ρ) :
    dumpCalls (h ++ [(some a, some b)]) = dumpCalls h := by
  simp [dumpCalls]

@[simp] theorem dumpCalls_dump :
    dumpCalls (h ++ [(none, none)]) = dumpCalls h + 1 := by
  simp [dumpCalls]

theorem gone_other {a : StoreAction F ρ} {b : StoreAnswer F ρ} :
    Gone id (h ++ [(some a, some b)]) ↔ Gone id h ∨ Discards id a := by
  unfold Gone
  simp only [List.mem_append, List.mem_singleton, or_and_right, exists_or,
    exists_eq_left]
  simp [DiscardsIn]

theorem gone_dump : Gone id (h ++ [(none, none)]) ↔ Gone id h := by
  unfold Gone
  simp only [List.mem_append, List.mem_singleton, or_and_right, exists_or,
    exists_eq_left]
  simp [DiscardsIn]

/-- Nothing counts after the discard. -/
theorem heldCalls_append
    (h' : List (Option (StoreAction F ρ) × Option (StoreAnswer F ρ))) :
    heldCalls id (h ++ h')
      = if Gone id h then heldCalls id h else dumpCalls h + heldCalls id h' := by
  unfold heldCalls
  rw [List.takeWhile_append]
  by_cases hgone : Gone id h
  · rw [if_pos hgone, if_neg]
    intro hlen
    obtain ⟨e, he, hdiscard⟩ := hgone
    have hself := (List.takeWhile_prefix _).eq_of_length hlen
    have := List.takeWhile_eq_self_iff.mp hself e he
    simp [hdiscard] at this
  · have hself : h.takeWhile (fun e => !decide (DiscardsIn id e)) = h := by
      apply List.takeWhile_eq_self_iff.mpr
      intro e he
      have : ¬ DiscardsIn id e := fun hdiscard => hgone ⟨e, he, hdiscard⟩
      simpa using this
    rw [if_neg hgone, if_pos (by rw [hself])]
    unfold dumpCalls
    rw [List.countP_append]

theorem heldCalls_eq (hgone : ¬ Gone id h) : heldCalls id h = dumpCalls h := by
  have happend : heldCalls id (h ++ []) = _ := heldCalls_append []
  rw [List.append_nil, if_neg hgone] at happend
  rw [happend]
  rfl

theorem heldCalls_other (a : StoreAction F ρ) (b : StoreAnswer F ρ) :
    heldCalls id (h ++ [(some a, some b)]) = heldCalls id h := by
  have hnone : heldCalls id [((some a : Option (StoreAction F ρ)), some b)]
      = 0 := by
    unfold heldCalls dumpCalls
    rw [List.countP_eq_zero]
    intro e he
    rw [List.mem_singleton.mp (List.takeWhile_sublist _ |>.mem he)]
    simp
  rw [heldCalls_append, hnone]
  by_cases hgone : Gone id h
  · rw [if_pos hgone]
  · rw [if_neg hgone, heldCalls_eq hgone, Nat.add_zero]

theorem heldCalls_dump : heldCalls id (h ++ [(none, none)])
    = if Gone id h then heldCalls id h else dumpCalls h + 1 := by
  rw [heldCalls_append]
  rfl

end History

/-- The dump and its document, through any interleaving. -/
theorem dump_run {s₀ : JsonDocumentStore F} {p : JsonDocumentStore F × JsonDump}
    {key value : CharBuffer}
    {h : List (Option (StoreAction F ρ) × Option (StoreAnswer F ρ))}
    (hheld : ∃ t, Represents s₀ t ∧ t.documents.lookup id = some r)
    (hfew : r.entries.length < 2 ^ 32) (hnul : ∀ e ∈ r.entries, 0 ∉ e.key)
    (hkey : Local key) (hvalue : Local value)
    (hrun : (dumping F ρ).Run (s₀, enter id key value) h p)
    (hnew : ∀ e ∈ elsewhere h, issued? e ≠ some id) :
    HeldOrGone id r (Gone id h) p.1
      ∧ Dumps id r.entries (heldCalls id h) (dumpCalls h) p.2 := by
  induction hrun with
  | nil =>
      obtain ⟨t, ht, hlookup⟩ := hheld
      have hnot : ¬ Gone id
          ([] : List (Option (StoreAction F ρ) × Option (StoreAnswer F ρ))) := by
        simp [Gone]
      exact ⟨⟨t, ht, Or.inl ⟨hnot, hlookup⟩⟩, rfl, hkey, hvalue,
        .entered rfl rfl rfl rfl⟩
  | @snoc p p' h a b _ hst ih =>
      cases a with
      | some a =>
          obtain ⟨⟨b, s'⟩, hcall, hst⟩ := Option.map_eq_some_iff.mp hst
          cases hst
          rw [elsewhere_other] at hnew
          obtain ⟨hs, hd⟩ := ih
            (fun e he => hnew e (List.mem_append_left _ he))
          rw [gone_other, dumpCalls_other, heldCalls_other]
          exact ⟨hs.other hcall (hnew (a, b)
            (List.mem_append_right _ (List.mem_singleton_self _))), hd⟩
      | none =>
          obtain ⟨d', hcall, hst⟩ := Option.map_eq_some_iff.mp hst
          cases hst
          rw [elsewhere_dump] at hnew
          obtain ⟨hs, hd⟩ := ih hnew
          rw [gone_dump, dumpCalls_dump, heldCalls_dump]
          refine ⟨hs, ?_⟩
          cases hpoint : p.2.point with
          | count => exact hd.counts hs hfew hpoint hcall
          | readEntry =>
              exact hd.reads hs (fun hnot => heldCalls_eq hnot) hnul hpoint hcall
          | returned =>
              unfold advance at hcall
              rw [hpoint] at hcall
              cases hcall

-- ============================================================== the result

/-- The lines after `calls`, the first `held` of them made while the
document was held. The first call is the one for the count. -/
def dumpWritten (entries : List FlatEntry) (held calls : Nat) : List Bytes :=
  if calls = 0 then []
  else if held = 0 then [countFailedLine Status.unknownDocumentId.toInt32]
  else dumpLines entries (held - 1) (calls - 1)

/-- What a dump of `entries` under `id` has done after `h`. -/
structure DumpOf (entries : List FlatEntry) (id : UInt32)
    (h : List (Option (StoreAction F ρ) × Option (StoreAnswer F ρ)))
    (d : JsonDump) : Prop where
  written : d.written = dumpWritten entries (heldCalls id h) (dumpCalls h)
  /-- It is back after the call for the count, where that comes too late,
  and otherwise after one more for each entry. -/
  returned : d.point = .returned ↔ dumpCalls h
    = if Gone id h ∧ heldCalls id h = 0 then 1 else entries.length + 1
  bounded : dumpCalls h ≤ entries.length + 1

omit [JsonFloat F] in
/-- How far a dump is says what it has done. -/
theorem Dumps.dumpOf
    {h : List (Option (StoreAction F ρ) × Option (StoreAnswer F ρ))}
    (hd : Dumps id entries (heldCalls id h) (dumpCalls h) d) :
    DumpOf entries id h d := by
  constructor
  case written =>
    unfold dumpWritten
    cases hd.progress with
    | entered _ hwritten _ hcalls => rw [hwritten, hcalls, if_pos rfl]
    | refused _ hwritten hheld hcalls =>
        rw [hwritten, hcalls, hheld, if_neg (by decide), if_pos rfl]
    | listing k _ _ _ _ hwritten hheld hcalls =>
        rw [hwritten, hcalls, hheld, if_neg (by omega), if_neg (by omega)]
        rfl
  case returned =>
    cases hd.progress with
    | entered hpoint _ _ hcalls =>
        rw [hpoint, hcalls]
        refine iff_of_false DumpPoint.noConfusion ?_
        split <;> omega
    | refused hpoint _ hheld hcalls =>
        have hgone : Gone id h := by
          by_contra hnot
          have := heldCalls_eq hnot
          omega
        rw [hpoint, hcalls, if_pos ⟨hgone, hheld⟩]
        exact iff_of_true rfl rfl
    | listing k _ hindex hcount hpoint _ hheld hcalls =>
        rw [hpoint, hcalls, if_neg (by omega : ¬ (Gone id h ∧ heldCalls id h = 0))]
        by_cases hlt : d.index < d.count
        · rw [if_pos hlt]
          rw [UInt32.lt_iff_toNat_lt] at hlt
          exact iff_of_false DumpPoint.noConfusion (by omega)
        · rw [if_neg hlt]
          rw [UInt32.lt_iff_toNat_lt] at hlt
          exact iff_of_true rfl (by omega)
  case bounded =>
    cases hd.progress with
    | entered _ _ _ hcalls => omega
    | refused _ _ _ hcalls => omega
    | listing => omega

/-- A dump writes a document out. Once `ParseJsonDocument` returned an id
that is not discarded before the dump of it begins, and not issued again
while it goes on, whatever other nodes call between the dump's own calls:
it writes the entries of the parsed text in their order, each on the line
it has, and returns; and where another node discards the document, the
lines of the calls before are these, and every further one says that the
document is gone. -/
theorem dump_lists_document {parser : Parser F} (hlawful : parser.Lawful)
    {w : Nat} (hw : w = 32 ∨ w = 64) {s₀ s₁ s₂ : JsonDocumentStore F}
    {h₀ h₁ : List (StoreAction F ρ × StoreAnswer F ρ)}
    {h₂ : List (Option (StoreAction F ρ) × Option (StoreAnswer F ρ))}
    (hr : (storeMachine F ρ).Reach h₀ s₀)
    {jsonText : CharBuffer} {ticks : UInt64} {documentId : UInt32}
    (hparse : parseJsonDocument (SizeArith.wrapping w) parser s₀ jsonText ticks
      = some (.ok, documentId, s₁))
    (hrun₁ : (storeMachine F ρ).Run s₁ h₁ s₂)
    (hheld₁ : ∀ e ∈ h₁, ¬ Discards documentId e.1)
    {keyText value : CharBuffer} (hkey : Local keyText)
    (hvalue : Local value) {p : JsonDocumentStore F × JsonDump}
    (hrun₂ : (dumping F ρ).Run (s₂, enter documentId keyText value) h₂ p)
    (hnew : ∀ e ∈ elsewhere h₂, issued? e ≠ some documentId) :
    ∃ text r, boundedText jsonText = .ok text
      ∧ flattenJson (SizeArith.wrapping w) parser text = some (.ok r)
      ∧ DumpOf r.entries documentId h₂ p.2 := by
  obtain ⟨text, r, hbounded, hflatten, hst⟩ :=
    parseJsonDocument_ok (ρ := ρ) hparse
  obtain ⟨hflattened, hfew⟩ := flattened_few_of_ok hlawful hw hflatten
  have hlength : r.entries.length ≤ kMaxFlatEntries := by
    rw [hflattened.entries, leafEntries_length]
    exact hfew
  have hbelow : r.entries.length < 2 ^ 32 := by
    unfold kMaxFlatEntries at hlength
    omega
  -- the document is held when the dump begins
  obtain ⟨t₀, ht₀⟩ := Represents.reach hr
  obtain ⟨t₁, hspec, ht₁⟩ := represents_step ht₀ hst
  obtain ⟨t₂, ht₂, hlookup₂⟩ :=
    ht₁.run (StoreSpec.inserted hspec rfl) hrun₁ hheld₁
  obtain ⟨hs, hd⟩ := dump_run ⟨t₂, ht₂, hlookup₂⟩ hbelow
    (fun e he => (hflattened.entry he).1) hkey hvalue hrun₂ hnew
  refine ⟨text, r, hbounded, hflatten, ?_⟩
  exact hd.dumpOf

/-- `[true,null]`. -/
def pairText : Bytes := literal "[true,null]".toList

def pairParser : Parser Empty := .ofText pairText (.array [.boolean true, .null])

/-- It, parsed into a new store. -/
def pairParsed : Option (Status × UInt32 × JsonDocumentStore Empty) :=
  parseJsonDocument (.wrapping 32) pairParser .fresh (.holding pairText) 41

theorem pairParsed_isSome : pairParsed.isSome = true := by decide +kernel

/-- An array as `restLibJsonDump` declares it. -/
def blank : CharBuffer where
  mem := some (List.replicate 512 0)
  size := 512
  fits m hm := by
    injection hm with hm
    rw [← hm, List.length_replicate]
    exact Nat.le_refl _

theorem blank_local : Local blank := ⟨rfl, rfl⟩

/-- A dump of it, in which another node discards every document before
the second entry is read. -/
def pairDumped :
    Option (List (Option (StoreAction Empty Unit)
        × Option (StoreAnswer Empty Unit))
      × JsonDocumentStore Empty × JsonDump) :=
  (dumping Empty Unit).exec
    ((pairParsed.get pairParsed_isSome).2.2, enter 41 blank blank)
    [none, none, some .discardAll, none]

theorem pairDumped_isSome : pairDumped.isSome = true := by decide +kernel

theorem dump_lists_document_pair : ∃ text r,
    boundedText (.holding pairText) = .ok text
      ∧ flattenJson (SizeArith.wrapping 32) pairParser text = some (.ok r)
      ∧ DumpOf r.entries 41 (pairDumped.get pairDumped_isSome).1
        (pairDumped.get pairDumped_isSome).2.2 := by
  have hparse : pairParsed
      = some (.ok, 41, (pairParsed.get pairParsed_isSome).2.2) := by
    have hstatus : (pairParsed.get pairParsed_isSome).1 = .ok := by
      decide +kernel
    have hid : (pairParsed.get pairParsed_isSome).2.1 = 41 := by
      decide +kernel
    calc pairParsed = some (pairParsed.get pairParsed_isSome) :=
          (Option.some_get pairParsed_isSome).symm
      _ = some ((pairParsed.get pairParsed_isSome).1,
            (pairParsed.get pairParsed_isSome).2.1,
            (pairParsed.get pairParsed_isSome).2.2) := rfl
      _ = _ := by rw [hstatus, hid]
  have hrun := Machine.Run.of_exec (Option.some_get pairDumped_isSome).symm
  exact dump_lists_document (ρ := Unit)
    (Parser.ofText_lawful (by decide)) (Or.inl rfl)
    (.init (Or.inl rfl)) hparse (.nil _) (List.forall_mem_nil _) blank_local
    blank_local hrun (by decide +kernel)

/-- The second line of it says that the document is gone. -/
example : (pairDumped.get pairDumped_isSome).2.2.written
    = [literal "/0 = true (bool)".toList,
      literal "[1] read failed, status -31".toList] := by
  decide +kernel

end JsonDump

end RestifyCapl
