/-
`ParseLong` (core/type-conversion.cpp): text to a 32-bit integer. The text
is read as an integer first, and where that stops at what may continue a
floating-point number, the whole text once more as a double. What the
library's `std::from_chars` reads of a text is here too, for these two types;
a finite double is the rational it stands for.
-/
import RestifyCapl.Core.CharConv
import RestifyCapl.Lib.Rounding

namespace RestifyCapl

open Lib

/-- `std::from_chars_result`, and the value stored. -/
structure FromCharsResult (α : Type) where
  ec : Errc
  rest : Bytes
  value : α

-- ================================================================= integers

/-- A text without the minus sign at its beginning. -/
def afterSign (text : Bytes) : Bytes :=
  if text.head? = some (ch '-') then text.tail else text

/-- The value of digits after a sign. -/
def signed (neg : Bool) (n : Nat) : Int := if neg then -n else n

/-- `std::int32_t` holds the value. -/
def InInt32 (v : Int) : Prop := -2147483648 ≤ v ∧ v ≤ 2147483647

instance (v : Int) : Decidable (InInt32 v) := inferInstanceAs (Decidable (_ ∧ _))

/-- `from_chars` on `std::int32_t`. -/
def fromCharsInt32 (text : Bytes) : FromCharsResult Int32 :=
  let neg := decide (text.head? = some (ch '-'))
  let digits := (afterSign text).takeWhile isDigit
  let rest := (afterSign text).dropWhile isDigit
  if digits.isEmpty then ⟨.invalidArgument, text, 0⟩
  else if InInt32 (signed neg (decimalValue digits)) then
    ⟨.none, rest, Int32.ofInt (signed neg (decimalValue digits))⟩
  else ⟨.resultOutOfRange, rest, 0⟩

-- ================================================================= numerals

/-- A run of digits. -/
abbrev Digits := {s : Bytes // ∀ c ∈ s, isDigit c = true}

/-- The digits a text begins with. -/
def takeDigits (text : Bytes) : Digits :=
  ⟨text.takeWhile isDigit, fun _ => List.mem_takeWhile_imp⟩

/-- The exponent of a numeral; its marker is `e` or `E`. -/
structure Exponent where
  marker : UInt8
  sign : Bytes
  digits : Digits
  isMarker : marker = ch 'e' ∨ marker = ch 'E'
  isSign : sign = [] ∨ sign = [ch '+'] ∨ sign = [ch '-']
  nonempty : digits.val ≠ []

/-- What `std::strtod` takes for a decimal number, but for a plus sign. -/
structure Numeral where
  neg : Bool
  int : Digits
  frac : Option Digits
  exp : Option Exponent
  nonempty : int.val ++ (frac.elim [] Subtype.val) ≠ []

def Exponent.text (e : Exponent) : Bytes := e.marker :: (e.sign ++ e.digits.val)

def Exponent.value (e : Exponent) : Int :=
  signed (e.sign == [ch '-']) (decimalValue e.digits.val)

namespace Numeral

def signText (neg : Bool) : Bytes := if neg then [ch '-'] else []

def fracText (frac : Option Digits) : Bytes :=
  frac.elim [] fun digits => ch '.' :: digits.val

def expText (exp : Option Exponent) : Bytes := exp.elim [] Exponent.text

def text (n : Numeral) : Bytes :=
  signText n.neg ++ (n.int.val ++ (fracText n.frac ++ expText n.exp))

/-- The integer before the point. -/
def intValue (n : Numeral) : Int := signed n.neg (decimalValue n.int.val)

/-- The number the text stands for. -/
def value (n : Numeral) : ℚ :=
  let frac := n.frac.elim [] Subtype.val
  signed n.neg (decimalValue (n.int.val ++ frac))
    * 10 ^ (n.exp.elim 0 Exponent.value - frac.length)

end Numeral

/-- The sign of an exponent. -/
def exponentSign (text : Bytes) : Bytes :=
  if text.head? = some (ch '+') then [ch '+']
  else if text.head? = some (ch '-') then [ch '-']
  else []

theorem exponentSign_cases (text : Bytes) : exponentSign text = []
    ∨ exponentSign text = [ch '+'] ∨ exponentSign text = [ch '-'] := by
  unfold exponentSign
  split
  · exact Or.inr (Or.inl rfl)
  · split
    · exact Or.inr (Or.inr rfl)
    · exact Or.inl rfl

/-- An exponent, where one is next. -/
def scanExponent (text : Bytes) : Option (Exponent × Bytes) :=
  match text with
  | [] => none
  | c :: after =>
      let sign := exponentSign after
      let rest := after.drop sign.length
      if h : (c = ch 'e' ∨ c = ch 'E') ∧ (takeDigits rest).val ≠ [] then
        some (⟨c, sign, takeDigits rest, h.1, exponentSign_cases after, h.2⟩,
          rest.dropWhile isDigit)
      else none

/-- The fraction, where a point is next. -/
def scanFraction (text : Bytes) : Option Digits × Bytes :=
  if text.head? = some (ch '.') then
    (some (takeDigits text.tail), text.tail.dropWhile isDigit)
  else (none, text)

/-- The longest numeral a text begins with, and what follows it. -/
def scanNumeral (text : Bytes) : Option (Numeral × Bytes) :=
  let neg := decide (text.head? = some (ch '-'))
  let int := takeDigits (afterSign text)
  let frac := scanFraction ((afterSign text).dropWhile isDigit)
  if hne : int.val ++ (frac.1.elim [] Subtype.val) ≠ [] then
    match scanExponent frac.2 with
    | some (exp, rest) => some (⟨neg, int, frac.1, some exp, hne⟩, rest)
    | none => some (⟨neg, int, frac.1, none, hne⟩, frac.2)
  else none

/-- `double`. -/
def binary64 : Format := ⟨53, -1074, 1024⟩

/-- `from_chars` on `double`, for a text that begins like a decimal number
(it also reads `inf` and `nan`). -/
def fromCharsDouble (text : Bytes) : FromCharsResult ℚ :=
  match scanNumeral text with
  | none => ⟨.invalidArgument, text, 0⟩
  | some (n, rest) =>
      match binary64.round n.value with
      | none => ⟨.resultOutOfRange, rest, 0⟩
      | some v => ⟨.none, rest, v⟩

-- ================================================================ ParseLong

/-- `LooksLikeFloatContinuation`. -/
def looksLikeFloatContinuation (c : UInt8) : Bool :=
  c == ch '.' || c == ch 'e' || c == ch 'E'

/-- `std::trunc`. -/
def trunc (v : ℚ) : Int := if 0 ≤ v then ⌊v⌋ else ⌈v⌉

/-- `FractionalTextToLong`: the status, and `out` after the call. -/
def fractionalTextToLong (text : Bytes) (out : Int32) : Status × Int32 :=
  let result := fromCharsDouble text
  if result.ec = .resultOutOfRange then (.numericOverflow, out)
  else if result.ec ≠ .none ∨ result.rest ≠ [] then (.parseError, out)
  else
    let truncated := trunc result.value
    if result.value ≠ truncated then (.notIntegral, out)
    else if ¬ InInt32 truncated then (.numericOverflow, out)
    else (.ok, Int32.ofInt truncated)

/-- `ParseLong`. -/
def parseLong (text : Bytes) (out : Int32) : Status × Int32 :=
  if text.isEmpty then (.invalidArgument, out)
  else
    let result := fromCharsInt32 text
    if result.ec = .resultOutOfRange then (.numericOverflow, out)
    else if result.ec = .none ∧ result.rest = [] then (.ok, result.value)
    else if result.ec = .none ∧ result.rest.head?.any looksLikeFloatContinuation then
      fractionalTextToLong text out
    else (.parseError, out)

end RestifyCapl
