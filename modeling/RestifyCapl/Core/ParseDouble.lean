/-
`ParseDouble` (core/type-conversion.cpp): text to a double, in one
reading. `std::from_chars` on `double` reads the decimal numbers of
Core/ParseLong.lean and, in any case, `inf`, `infinity` and `nan` with what
may follow it in parentheses. A double is a number, an infinity or no
number; the sign of a zero is left out.
-/
import RestifyCapl.Core.ParseLong
import RestifyCapl.Core.TypeConversion

namespace RestifyCapl

open Lib

inductive DoubleValue where
  | finite (v : ℚ)
  | infinite (neg : Bool)
  | nan (neg : Bool)
deriving DecidableEq

-- =============================================================== the words

def lowerCase (c : UInt8) : UInt8 :=
  if ch 'A' ≤ c ∧ c ≤ ch 'Z' then c + 32 else c

/-- The text after a word, in any case. -/
def afterWord (word text : Bytes) : Option Bytes :=
  if (text.take word.length).map lowerCase = word then
    some (text.drop word.length)
  else none

/-- A character of an *n-char-sequence*. -/
def isNChar (c : UInt8) : Bool :=
  isDigit c || (ch 'a' ≤ lowerCase c && lowerCase c ≤ ch 'z') || c == ch '_'

/-- The text after `(n-char-sequence)`, where one is next. -/
def afterPayload (text : Bytes) : Bytes :=
  let rest := text.tail.dropWhile isNChar
  if text.head? = some (ch '(') ∧ rest.head? = some (ch ')') then rest.tail
  else text

/-- What is no decimal number. -/
def scanWord (text : Bytes) : Option (DoubleValue × Bytes) :=
  let neg := decide (text.head? = some (ch '-'))
  match afterWord (literal "nan".toList) (afterSign text) with
  | some rest => some (.nan neg, afterPayload rest)
  | none =>
      match afterWord (literal "infinity".toList) (afterSign text) with
      | some rest => some (.infinite neg, rest)
      | none =>
          (afterWord (literal "inf".toList) (afterSign text)).map
            fun rest => (.infinite neg, rest)

/-- `from_chars` on `double`. -/
def fromCharsDoubleValue (text : Bytes) : FromCharsResult DoubleValue :=
  match scanWord text with
  | some (v, rest) => ⟨.none, rest, v⟩
  | none =>
      let result := fromCharsDouble text
      ⟨result.ec, result.rest, .finite result.value⟩

-- ============================================================== ParseDouble

/-- `ParseDouble`: the status, and `out` after the call. -/
def parseDouble (text : Bytes) (out : DoubleValue) : Status × DoubleValue :=
  if text.isEmpty then (.invalidArgument, out)
  else
    let result := fromCharsDoubleValue text
    if result.ec = .resultOutOfRange then (.numericOverflow, out)
    else if result.ec ≠ .none ∨ result.rest ≠ [] then (.parseError, out)
    else (.ok, result.value)

end RestifyCapl
