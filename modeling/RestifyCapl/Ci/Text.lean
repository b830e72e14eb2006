/-
The .NET strings of scripts/ci/changelog.ps1, and what it does with
them. All text the script works on was decoded from UTF-8, so a string
is a list of characters here and not of UTF-16 units; the character
classes below hold none that takes two.
-/
import RestifyCapl.Lib.Decimal
import Mathlib.Data.List.Basic
import Mathlib.Data.List.DropRight
import Mathlib.Data.List.TakeWhile

namespace RestifyCapl.Ci

open Lib

abbrev Text := List Char

instance : LawfulBEq Text := inferInstance

-- ======================================================== character classes

def inRange (lo hi : Nat) (c : Char) : Bool := lo ≤ c.toNat && c.toNat ≤ hi

/-- `Char.IsWhiteSpace`, and `\s` of a regular expression. -/
def isWhiteSpace (c : Char) : Bool :=
  inRange 0x9 0xD c || c.toNat == 0x20 || c.toNat == 0x85 || c.toNat == 0xA0
    || c.toNat == 0x1680 || inRange 0x2000 0x200A c || c.toNat == 0x2028
    || c.toNat == 0x2029 || c.toNat == 0x202F || c.toNat == 0x205F
    || c.toNat == 0x3000

/-- `[0-9]`. -/
def isAsciiDigit (c : Char) : Bool := inRange 48 57 c

/-- The value of a digit. -/
def asciiDigitVal (c : Char) : Nat := c.toNat - 48

/-- `[int]`, of a text of ASCII digits. -/
def toInt (t : Text) : Nat := t.foldl (fun n c => 10 * n + asciiDigitVal c) 0

/-- A number as PowerShell formats it. -/
def format (n : Nat) : Text := (decimal n).map fun c => Char.ofNat c.toNat

-- ================================================================= methods

/-- `TrimEnd()`. -/
def trimEnd (t : Text) : Text := t.rdropWhile isWhiteSpace

/-- `Trim()`. -/
def trim (t : Text) : Text := trimEnd (t.dropWhile isWhiteSpace)

/-- ``TrimEnd("`r")``. -/
def trimEndCr (t : Text) : Text := t.rdropWhile (· == '\r')

/-- `Split([char]10)`. -/
def lines (t : Text) : List Text := t.splitOn '\n'

/-- ``-join "`n"``. -/
def joinLines (ls : List Text) : Text := ['\n'].intercalate ls

/-- The blanks of `Split-Words`. -/
def isWordBlank (c : Char) : Bool :=
  c == ' ' || c == '\t' || c == '\r' || c == '\n'

/-- `Split-Words`. -/
def splitWords (t : Text) : List Text :=
  (t.splitOnP isWordBlank).filter fun word => !word.isEmpty

/-- `Get-Prefix`. -/
def getPrefix (t : Text) (n : Nat) : Text := t.take n

-- ============================================================= comparisons

/-- Printable ASCII, and the carriage return. -/
def isPlain (c : Char) : Bool := inRange 0x20 0x7E c || c == '\r'

/-- How the script compares strings. `-ceq` and its kin compare the keys
that a culture gives strings, in which some characters count for nothing,
the soft hyphen for one; `switch` compares other ones, without case. Plain
characters count, and plain texts have keys of their own. -/
class Culture where
  sortKey : Text → List Nat
  foldKey : Text → List Nat
  plain : ∀ s t, s.all isPlain = true → t.all isPlain = true →
    sortKey s = sortKey t → s = t
  counts : ∀ s, s.any isPlain = true → sortKey s ≠ sortKey []

section Culture

variable [Culture]

/-- `-ceq`. -/
def ceq (s t : Text) : Bool := Culture.sortKey s == Culture.sortKey t

/-- `-ccontains`; `-cin` with the arguments the other way round. -/
def ccontains (ts : List Text) (t : Text) : Bool := ts.any fun s => ceq s t

/-- A case of `switch`. -/
def switchEq (s t : Text) : Bool := Culture.foldKey s == Culture.foldKey t

/-- `-ceq ''`. -/
def isEmptyText (t : Text) : Bool := ceq t []

@[simp] theorem ceq_self (t : Text) : ceq t t = true := by simp [ceq]

theorem ceq_iff {s t : Text} (hs : s.all isPlain = true)
    (ht : t.all isPlain = true) : ceq s t = true ↔ s = t := by
  constructor
  · intro h
    exact Culture.plain s t hs ht (eq_of_beq h)
  · rintro rfl
    exact ceq_self s

theorem ccontains_of_mem {ts : List Text} {t : Text} (h : t ∈ ts) :
    ccontains ts t = true := List.any_eq_true.mpr ⟨t, h, ceq_self t⟩

@[simp] theorem isEmptyText_nil : isEmptyText [] = true := ceq_self []

/-- A text with a plain character is not taken for the empty one. -/
theorem not_isEmptyText {t : Text} (h : t.any isPlain = true) :
    isEmptyText t = false := by
  unfold isEmptyText ceq
  rw [beq_eq_false_iff_ne]
  exact Culture.counts t h

theorem isEmptyText_cons {c : Char} (h : isPlain c = true) (t : Text) :
    isEmptyText (c :: t) = false := not_isEmptyText (by simp [h])

end Culture

namespace SoftHyphen

def softHyphen : Char := Char.ofNat 0xAD

theorem filter_plain {t : Text} (h : t.all isPlain = true) :
    t.filter (· != softHyphen) = t := by
  rw [List.filter_eq_self]
  intro c hc
  have hplain := List.all_eq_true.mp h c hc
  by_contra hsoft
  rw [bne_iff_ne, ne_eq, not_not] at hsoft
  rw [hsoft] at hplain
  exact absurd hplain (by decide)

/-- Texts compared without their soft hyphens. -/
scoped instance culture : Culture where
  sortKey t := (t.filter (· != softHyphen)).map Char.toNat
  foldKey t := (t.filter (· != softHyphen)).map fun c => c.toLower.toNat
  plain s t hs ht h := by
    rw [filter_plain hs, filter_plain ht] at h
    exact List.map_injective_iff.mpr (fun _ _ => Char.toNat_inj.mp) h
  counts s h := by
    obtain ⟨c, hc, hplain⟩ := List.any_eq_true.mp h
    have hmem : c ∈ s.filter (· != softHyphen) := by
      rw [List.mem_filter, bne_iff_ne]
      refine ⟨hc, ?_⟩
      rintro rfl
      exact absurd hplain (by decide)
    rw [List.filter_nil, List.map_nil, ne_eq, List.map_eq_nil_iff]
    exact List.ne_nil_of_mem hmem

end SoftHyphen

-- ================================================================== digits

/-- A decimal text as bytes, where the library's numerals are. -/
def digitByte (c : Char) : UInt8 := UInt8.ofNat c.toNat

theorem isAsciiDigit_iff {c : Char} :
    isAsciiDigit c = true ↔ 48 ≤ c.toNat ∧ c.toNat ≤ 57 := by
  simp [isAsciiDigit, inRange]

theorem digitByte_toNat {c : Char} (h : isAsciiDigit c = true) :
    (digitByte c).toNat = c.toNat := by
  have := isAsciiDigit_iff.mp h
  rw [digitByte, UInt8.toNat_ofNat', Nat.mod_eq_of_lt (by omega)]

theorem isDigit_digitByte {c : Char} (h : isAsciiDigit c = true) :
    isDigit (digitByte c) = true := by
  rw [isDigit_iff, digitByte_toNat h]
  exact isAsciiDigit_iff.mp h

theorem toInt_eq {t : Text} (h : ∀ c ∈ t, isAsciiDigit c = true) :
    toInt t = decimalValue (t.map digitByte) := by
  unfold toInt decimalValue
  rw [List.foldl_map]
  apply List.foldl_ext
  intro n c hc
  rw [digitVal, digitByte_toNat (h c hc)]
  rfl

/-- A digit text without a leading zero is what its number is formatted
as. -/
theorem format_toInt {t : Text} (h : ∀ c ∈ t, isAsciiDigit c = true)
    (hne : t ≠ []) (hzero : 1 < t.length → t.head? ≠ some '0') :
    format (toInt t) = t := by
  have hbytes : ∀ c ∈ t.map digitByte, isDigit c = true := by
    intro c hc
    obtain ⟨d, hd, rfl⟩ := List.mem_map.mp hc
    exact isDigit_digitByte (h d hd)
  have hcanonical : Canonical (t.map digitByte) := by
    refine ⟨by simpa using hne, fun hlen hhead => ?_⟩
    rw [List.length_map] at hlen
    cases t with
    | nil => exact hne rfl
    | cons c t =>
        apply hzero hlen
        rw [List.map_cons, List.head?_cons, Option.some.injEq] at hhead
        have hc : c.toNat = 48 := by
          rw [← digitByte_toNat (h c (by simp)), hhead]
          rfl
        rw [List.head?_cons, Option.some.injEq]
        exact Char.toNat_inj.mp hc
  rw [format, toInt_eq h, decimal_decimalValue hbytes hcanonical, List.map_map]
  conv_rhs => rw [← List.map_id t]
  apply List.map_congr_left
  intro c hc
  show Char.ofNat (digitByte c).toNat = c
  rw [digitByte_toNat (h c hc), Char.ofNat_toNat]

theorem toNat_ofNat_digit {b : UInt8} (h : isDigit b = true) :
    (Char.ofNat b.toNat).toNat = b.toNat := by
  have := isDigit_iff.mp h
  rw [Char.ofNat, dif_pos (Or.inl (by omega))]
  rfl

theorem format_digits (n : Nat) : ∀ c ∈ format n, isAsciiDigit c = true := by
  intro c hc
  obtain ⟨b, hb, rfl⟩ := List.mem_map.mp hc
  have hdigit := decimal_digits n b hb
  rw [isAsciiDigit_iff, toNat_ofNat_digit hdigit]
  exact isDigit_iff.mp hdigit

theorem map_digitByte_format (n : Nat) : (format n).map digitByte = decimal n := by
  rw [format, List.map_map]
  conv_rhs => rw [← List.map_id (decimal n)]
  apply List.map_congr_left
  intro b hb
  show digitByte (Char.ofNat b.toNat) = b
  rw [digitByte, toNat_ofNat_digit (decimal_digits n b hb), UInt8.ofNat_toNat]

theorem toInt_format (n : Nat) : toInt (format n) = n := by
  rw [toInt_eq (format_digits n), map_digitByte_format, decimalValue_decimal]

theorem format_inj {m n : Nat} (h : format m = format n) : m = n := by
  rw [← toInt_format m, h, toInt_format]

theorem format_ne_nil (n : Nat) : format n ≠ [] := by
  rw [format, ne_eq, List.map_eq_nil_iff]
  exact decimal_ne_nil n

theorem length_format (n : Nat) : (format n).length = (decimal n).length :=
  List.length_map _

theorem head_format {n : Nat} (h : 1 < (format n).length) :
    (format n).head? ≠ some '0' := by
  intro hhead
  rw [length_format] at h
  apply (decimal_canonical n).2 h
  rw [← map_digitByte_format, List.head?_map, hhead]
  rfl

end RestifyCapl.Ci
