/-
Bytes, caller-owned buffers and the two functions that cross between
them: `copyToBuffer` (core/buffer-copy.cpp) writes C++ text out,
`boundedText` (core/input-text.cpp) reads C text in.

A buffer is a pointer and a size: `mem` is the memory the pointer
addresses, `none` for a null pointer, and the caller promises at least
`size` bytes of it (`fits`). The memory may go on beyond `size`; what a
call leaves there is part of what it does.
-/
import RestifyCapl.Core.Status
import Mathlib.Data.List.TakeWhile

namespace RestifyCapl

/-- `std::string` and the memory behind a `char*`: bytes. -/
abbrev Bytes := List UInt8

/-- A character of the source text, as the byte it compiles to. -/
abbrev ch (c : Char) : UInt8 := c.toUInt8

/-- `std::string_view`: `none` when `data()` is null. -/
abbrev StringView := Option Bytes

-- ============================================================= the buffers

/-- A `(char*, std::uint32_t)` argument pair. -/
structure CharBuffer where
  mem : Option Bytes
  size : UInt32
  fits : ∀ m, mem = some m → size.toNat ≤ m.length
deriving DecidableEq

namespace CharBuffer

/-- A null pointer or a zero size: nothing may be written. -/
def unusable (b : CharBuffer) : Bool := b.mem.isNone || b.size == 0

/-- `memcpy(buffer, bytes, bytes.size())`: the rest of the memory is
kept. -/
def store (b : CharBuffer) (bytes : Bytes) : CharBuffer where
  mem := b.mem.map fun m => bytes ++ m.drop bytes.length
  size := b.size
  fits := by
    intro m hm
    obtain ⟨m₀, hm₀, rfl⟩ := Option.map_eq_some_iff.mp hm
    have := b.fits m₀ hm₀
    simp only [List.length_append, List.length_drop]
    omega

@[simp] theorem store_size (b : CharBuffer) (bytes : Bytes) :
    (b.store bytes).size = b.size := rfl

@[simp] theorem store_mem (b : CharBuffer) (bytes : Bytes) :
    (b.store bytes).mem
      = b.mem.map fun m => bytes ++ m.drop bytes.length := rfl

@[simp] theorem store_unusable (b : CharBuffer) (bytes : Bytes) :
    (b.store bytes).unusable = b.unusable := by
  simp [unusable]

/-- A usable buffer has memory, and its size is that of the memory the
caller promised. -/
theorem usable_mem {b : CharBuffer} (h : b.unusable = false) :
    ∃ m, b.mem = some m ∧ 0 < b.size.toNat ∧ b.size.toNat ≤ m.length := by
  unfold unusable at h
  cases hm : b.mem with
  | none => simp [hm] at h
  | some m =>
      simp only [hm, Option.isNone_some, Bool.false_or, beq_eq_false_iff_ne,
        ne_eq] at h
      refine ⟨m, rfl, ?_, b.fits m hm⟩
      rcases Nat.eq_zero_or_pos b.size.toNat with h0 | hpos
      · exact absurd (UInt32.toNat_inj.mp h0) h
      · exact hpos

/-- A buffer that holds just a C text. -/
def holding (text : Bytes) : CharBuffer where
  mem := some (text ++ [0])
  size := UInt32.ofNat (text.length + 1)
  fits m hm := by
    injection hm with hm
    rw [← hm, UInt32.toNat_ofNat', List.length_append, List.length_singleton]
    exact Nat.mod_le _ _

end CharBuffer

-- ============================================================ text out

/-- `CopyToBuffer` (core/buffer-copy.cpp). -/
def copyToBuffer (text : Bytes) (buffer : CharBuffer) :
    Status × CharBuffer :=
  if buffer.unusable then
    (.invalidArgument, buffer)
  else if text.length ≥ buffer.size.toNat then
    (.bufferTooSmall, buffer.store [0])
  else
    (.ok, (buffer.store [0]).store (text ++ [0]))

theorem copyToBuffer_unusable {text : Bytes} {buffer : CharBuffer}
    (h : buffer.unusable = true) :
    copyToBuffer text buffer = (.invalidArgument, buffer) := by
  simp [copyToBuffer, h]

theorem copyToBuffer_small {text : Bytes} {buffer : CharBuffer}
    (h : buffer.unusable = false) (hlen : buffer.size.toNat ≤ text.length) :
    copyToBuffer text buffer = (.bufferTooSmall, buffer.store [0]) := by
  simp [copyToBuffer, h, hlen]

/-- What fits is written with its NUL, in one piece. -/
theorem copyToBuffer_fits {text : Bytes} {buffer : CharBuffer}
    (h : buffer.unusable = false) (hlen : text.length < buffer.size.toNat) :
    copyToBuffer text buffer = (.ok, buffer.store (text ++ [0])) := by
  obtain ⟨m, hm, hpos, hfit⟩ := CharBuffer.usable_mem h
  have hstore : (buffer.store [0]).store (text ++ [0])
      = buffer.store (text ++ [0]) := by
    cases m with
    | nil => simp at hfit; omega
    | cons x m =>
        simp only [CharBuffer.mk.injEq, CharBuffer.store, hm,
          Option.map_some, Option.some.injEq, List.length_append,
          List.length_singleton, and_true]
        simp
  have hlt : ¬ buffer.size.toNat ≤ text.length := by omega
  rw [copyToBuffer, hstore]
  simp [h, hlt]

/-- `Ok` is exactly the fitting case. -/
theorem copyToBuffer_ok_iff {text : Bytes} {buffer : CharBuffer} :
    (copyToBuffer text buffer).1 = .ok
      ↔ buffer.unusable = false ∧ text.length < buffer.size.toNat := by
  cases h : buffer.unusable with
  | true => simp [copyToBuffer_unusable h]
  | false =>
      by_cases hlen : buffer.size.toNat ≤ text.length
      · simp [copyToBuffer_small h hlen, hlen]
      · rw [copyToBuffer_fits h (by omega)]
        simp
        omega

-- ============================================================= text in

/-- `BoundedText` (core/input-text.cpp): the bytes before the first NUL
among the first `size`. -/
def boundedText (p : CharBuffer) : Except Status Bytes :=
  match p.mem with
  | none => .error .invalidArgument
  | some m =>
      if p.size = 0 then .error .invalidArgument
      else if 0 ∈ m.take p.size.toNat then
        .ok ((m.take p.size.toNat).takeWhile (· ≠ 0))
      else .error .unterminatedInputText

/-- A text without NUL, written with its terminator, reads back. -/
theorem boundedText_store {buffer : CharBuffer} {text : Bytes}
    (h : buffer.unusable = false) (hlen : text.length < buffer.size.toNat)
    (hnul : 0 ∉ text) :
    boundedText (buffer.store (text ++ [0])) = .ok text := by
  obtain ⟨m, hm, hpos, hfit⟩ := CharBuffer.usable_mem h
  have hsize : buffer.size ≠ 0 := by
    intro h0
    rw [h0] at hpos
    simp at hpos
  have htake : (text ++ [0] ++ m.drop (text ++ [(0 : UInt8)]).length).take
      buffer.size.toNat
      = text ++ 0 :: (m.drop (text ++ [(0 : UInt8)]).length).take
          (buffer.size.toNat - (text.length + 1)) := by
    rw [List.take_append, List.take_of_length_le (by simp; omega)]
    simp
  unfold boundedText
  simp only [CharBuffer.store_mem, hm, Option.map_some,
    CharBuffer.store_size, if_neg hsize, htake]
  rw [if_pos (by simp), List.takeWhile_append_of_pos]
  · simp
  · intro c hc
    have : c ≠ 0 := fun h0 => hnul (h0 ▸ hc)
    simpa using this

/-- What `boundedText` returns has no NUL and is shorter than the
buffer. -/
theorem boundedText_ok {p : CharBuffer} {text : Bytes}
    (h : boundedText p = .ok text) :
    0 ∉ text ∧ text.length < p.size.toNat := by
  unfold boundedText at h
  cases hm : p.mem with
  | none => simp [hm] at h
  | some m =>
      simp only [hm] at h
      split at h
      · cases h
      · split at h
        · rename_i hmem
          injection h with h
          subst h
          constructor
          · intro h0
            have := List.mem_takeWhile_imp h0
            simp at this
          · have hle := (List.takeWhile_prefix (l := m.take p.size.toNat)
              (· ≠ (0 : UInt8))).length_le
            have hne : ((m.take p.size.toNat).takeWhile
                (· ≠ (0 : UInt8))).length ≠ (m.take p.size.toNat).length := by
              intro heq
              have hall := List.takeWhile_eq_self_iff.mp
                (List.IsPrefix.eq_of_length (List.takeWhile_prefix _) heq)
              have := hall 0 hmem
              simp at this
            have := List.length_take_le p.size.toNat m
            omega
        · cases h

end RestifyCapl
