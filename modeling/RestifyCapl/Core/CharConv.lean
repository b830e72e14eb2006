/-
`std::from_chars` in base ten, on the unsigned types: the longest prefix
of digits is the number, `ptr` is what follows it, and the value is
reported only where the type can hold it.
-/
import RestifyCapl.Core.Text
import RestifyCapl.Lib.Decimal
import Mathlib.Algebra.Group.Nat.Defs

namespace RestifyCapl

open Lib

/-- The `std::errc` values `from_chars` gives. -/
inductive Errc where
  | none
  | invalidArgument
  | resultOutOfRange
deriving DecidableEq, Repr

/-- `std::from_chars_result` and the value stored; `rest` is `ptr` up to
the end of the text. -/
structure FromChars where
  ec : Errc
  rest : Bytes
  value : Nat
deriving DecidableEq

/-- `from_chars` on an unsigned type with `2 ^ width` values. -/
def fromCharsUnsigned (width : Nat) (text : Bytes) : FromChars :=
  let digits := text.takeWhile isDigit
  let rest := text.dropWhile isDigit
  if digits.isEmpty then ⟨.invalidArgument, text, 0⟩
  else if decimalValue digits < 2 ^ width then
    ⟨.none, rest, decimalValue digits⟩
  else ⟨.resultOutOfRange, rest, 0⟩

/-- A text of digits is read to its end. -/
theorem fromCharsUnsigned_digits {width : Nat} {text : Bytes}
    (hne : text ≠ []) (hdigits : ∀ c ∈ text, isDigit c = true) :
    fromCharsUnsigned width text
      = if decimalValue text < 2 ^ width then
          ⟨.none, [], decimalValue text⟩
        else ⟨.resultOutOfRange, [], 0⟩ := by
  have htake : text.takeWhile isDigit = text :=
    List.takeWhile_eq_self_iff.mpr hdigits
  have hdrop : text.dropWhile isDigit = [] :=
    List.dropWhile_eq_nil_iff.mpr hdigits
  unfold fromCharsUnsigned
  rw [htake, hdrop]
  dsimp only
  rw [if_neg (by simpa using hne)]

end RestifyCapl
