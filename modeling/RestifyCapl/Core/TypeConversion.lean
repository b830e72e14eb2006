/-
The conversions of a scalar (core/type-conversion.cpp): `ValueToText`,
the stringifier the flattener uses, over the library serializer's output
for scalars, and the typed ones, which tell a JSON null and a value of
another type apart from a number they cannot hold.
-/
import RestifyCapl.Core.JsonValue

namespace RestifyCapl

open Lib

/-- The bytes of an ASCII literal. -/
def literal (cs : List Char) : Bytes := cs.map ch

namespace JsonValue

variable {F : Type} [JsonFloat F]

/-- `dump()` of a signed integer. -/
def dumpInteger (n : Int64) : Bytes :=
  if n.toInt < 0 then ch '-' :: decimal n.toInt.natAbs
  else decimal n.toInt.natAbs

/-- `dump()`, for the values `ValueToText` dumps. -/
def dump : JsonValue F → Bytes
  | .boolean true => literal ['t', 'r', 'u', 'e']
  | .boolean false => literal ['f', 'a', 'l', 's', 'e']
  | .numberInteger n => dumpInteger n
  | .numberUnsigned n => decimal n.toNat
  | .numberFloat x => JsonFloat.dump x
  | _ => literal ['n', 'u', 'l', 'l']

/-- `ValueToText`. -/
def valueToText : JsonValue F → Except Status Bytes
  | .null => .ok (literal ['n', 'u', 'l', 'l'])
  | .string s => .ok s
  | .boolean b => .ok (dump (F := F) (.boolean b))
  | .numberInteger n => .ok (dump (F := F) (.numberInteger n))
  | .numberUnsigned n => .ok (dump (F := F) (.numberUnsigned n))
  | .numberFloat x => .ok (dump (.numberFloat x))
  | .array _ => .error .typeMismatch
  | .object _ => .error .typeMismatch

end JsonValue

-- ===================================================== the typed conversions

/-- `double`, as far as the conversions compute with one. The integers
that a conversion casts to it are rounded, so nothing is promised of the
casts. -/
class JsonDouble (F : Type) extends JsonFloat F where
  zero : F
  trunc : F → F
  /-- `!=` -/
  ne : F → F → Bool
  /-- `<` -/
  lt : F → F → Bool
  ofInt32 : Int32 → F
  ofInt64 : Int64 → F
  ofUInt64 : UInt64 → F
  toInt32 : F → Int32

/-- The doubles without a fraction, short enough to be printed without an
exponent. -/
structure WholeDouble where
  value : Int
deriving DecidableEq

instance : JsonDouble WholeDouble where
  dump x :=
    (if x.value < 0 then [ch '-'] else []) ++ decimal x.value.natAbs
      ++ [ch '.', ch '0']
  dump_plain x c h := by
    simp only [List.mem_append, List.mem_cons, List.not_mem_nil,
      or_false] at h
    rcases h with (h | h) | rfl | rfl
    · split at h
      · rw [List.mem_singleton] at h
        subst h
        decide
      · cases h
    · have hdigit := isDigit_iff.mp (decimal_digits _ c h)
      constructor <;> (intro h; subst h; revert hdigit; decide)
    · decide
    · decide
  zero := ⟨0⟩
  trunc x := x
  ne x y := x.value != y.value
  lt x y := x.value < y.value
  ofInt32 n := ⟨n.toInt⟩
  ofInt64 n := ⟨n.toInt⟩
  ofUInt64 n := ⟨n.toNat⟩
  toInt32 x := Int32.ofInt x.value

namespace JsonValue

variable {F : Type}

/-- `ToLong`: by storage kind, because the library's own narrowing is not
range-checked. -/
def toLong [JsonDouble F] : JsonValue F → Except Status Int32
  | .null => .error .nullValue
  | .numberUnsigned raw =>
      if raw > 2147483647 then .error .numericOverflow
      else .ok raw.toUInt32.toInt32
  | .numberInteger raw =>
      if raw < -2147483648 ∨ raw > 2147483647 then .error .numericOverflow
      else .ok raw.toInt32
  | .numberFloat raw =>
      let truncated := JsonDouble.trunc raw
      if JsonDouble.ne raw truncated then .error .notIntegral
      else if JsonDouble.lt truncated (JsonDouble.ofInt32 Int32.minValue)
          || JsonDouble.lt (JsonDouble.ofInt32 Int32.maxValue) truncated then
        .error .numericOverflow
      else .ok (JsonDouble.toInt32 truncated)
  | _ => .error .typeMismatch

/-- `ToDouble`. -/
def toDouble [JsonDouble F] : JsonValue F → Except Status F
  | .null => .error .nullValue
  | .numberUnsigned n => .ok (JsonDouble.ofUInt64 n)
  | .numberInteger n => .ok (JsonDouble.ofInt64 n)
  | .numberFloat x => .ok x
  | _ => .error .typeMismatch

/-- `ToBool`. -/
def toBool : JsonValue F → Except Status Bool
  | .null => .error .nullValue
  | .boolean b => .ok b
  | _ => .error .typeMismatch

end JsonValue

end RestifyCapl
