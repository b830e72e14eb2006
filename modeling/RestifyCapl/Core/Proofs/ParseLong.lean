/-
How `ParseLong` classifies a text. A text is a numeral and what does not
continue it (`Longest`), and `std::from_chars` reads exactly the numeral
(`scanNumeral_text`). An integer text comes out as its value or as an
overflow; a fraction comes out as not integral, and trailing characters as
a parse error, unless the integer before the point does not fit, or the
double nearest to the number is an integer, or there is none
(`parseLong_classifies_iff`).
-/
import RestifyCapl.Core.ParseLong

namespace RestifyCapl

open Lib

variable {text rest more : Bytes} {n : Numeral} {out : Int32} {x : ℚ}

-- ============================================================== the longest

/-- What follows continues the numeral with nothing. -/
def Longest (n : Numeral) (rest : Bytes) : Prop :=
  ∀ m : Numeral, m.text <+: n.text ++ rest → m.text.length ≤ n.text.length

/-- The same, by what comes next. -/
structure Stops (n : Numeral) (rest : Bytes) : Prop where
  digit : rest.head?.any isDigit = false
  point : n.frac = none → n.exp = none → rest.head? ≠ some (ch '.')
  exponent : n.exp = none → scanExponent rest = none

theorem takeDigits_append (d : Digits) (h : more.head?.any isDigit = false) :
    takeDigits (d.val ++ more) = d := by
  have hstop : more.takeWhile isDigit = [] := by
    cases more with
    | nil => rfl
    | cons c more => exact List.takeWhile_cons_of_neg (by simpa using h)
  apply Subtype.ext
  show (d.val ++ more).takeWhile isDigit = d.val
  rw [List.takeWhile_append_of_pos d.property, hstop, List.append_nil]

theorem dropDigits_append (d : Digits) (h : more.head?.any isDigit = false) :
    (d.val ++ more).dropWhile isDigit = more := by
  rw [List.dropWhile_append_of_pos d.property]
  cases more with
  | nil => rfl
  | cons c more => exact List.dropWhile_cons_of_neg (by simpa using h)

theorem isDigit_marker {c : UInt8} (h : c = ch 'e' ∨ c = ch 'E') : isDigit c = false := by
  rcases h with rfl | rfl <;> decide

theorem exponentSign_append (e : Exponent) (rest : Bytes) :
    exponentSign (e.sign ++ (e.digits.val ++ rest)) = e.sign := by
  obtain ⟨c, digits, hdigits⟩ := List.exists_cons_of_ne_nil e.nonempty
  have hc : isDigit c = true := e.digits.property c (by rw [hdigits]; simp)
  rcases e.isSign with h | h | h
  · rw [h, hdigits]
    unfold exponentSign
    have hplus : c ≠ ch '+' := by
      rintro rfl
      revert hc
      decide
    have hminus : c ≠ ch '-' := by
      rintro rfl
      revert hc
      decide
    simp [hplus, hminus]
  · rw [h]
    rfl
  · rw [h]
    rfl

theorem scanExponent_text (e : Exponent) (h : rest.head?.any isDigit = false) :
    scanExponent (e.text ++ rest) = some (e, rest) := by
  have hsign : exponentSign (e.sign ++ e.digits.val ++ rest) = e.sign := by
    rw [List.append_assoc]
    exact exponentSign_append e rest
  have hdrop : (e.sign ++ e.digits.val ++ rest).drop e.sign.length
      = e.digits.val ++ rest := by
    rw [List.append_assoc, List.drop_left]
  unfold Exponent.text
  rw [List.cons_append]
  unfold scanExponent
  simp only [hsign, hdrop, takeDigits_append e.digits h, dropDigits_append e.digits h]
  rw [dif_pos ⟨e.isMarker, e.nonempty⟩]

/-- What is read as an exponent is one. -/
theorem scanExponent_some {e : Exponent} (h : scanExponent text = some (e, rest)) :
    text = e.text ++ rest := by
  unfold scanExponent at h
  split at h
  next => cases h
  next c after =>
    dsimp only at h
    split at h
    next hnext =>
      cases h
      have hsign : exponentSign after
          ++ after.drop (exponentSign after).length = after := by
        unfold exponentSign
        cases after with
        | nil => rfl
        | cons d after =>
            split
            next hplus =>
              cases hplus
              rfl
            next =>
              split
              next hminus =>
                cases hminus
                rfl
              next => rfl
      show c :: after = c :: ((exponentSign after ++ (_ : Bytes).takeWhile isDigit) ++ _)
      rw [List.append_assoc, List.takeWhile_append_dropWhile, hsign]
    next => cases h

-- ============================================================= the numerals

namespace Numeral

/-- What follows the digits before the point. -/
def tail (n : Numeral) : Bytes := fracText n.frac ++ expText n.exp

theorem text_eq (n : Numeral) : n.text = signText n.neg ++ (n.int.val ++ n.tail) := rfl

theorem digits_head (d : Digits) (hne : d.val ≠ []) (more : Bytes) :
    ∃ c, (d.val ++ more).head? = some c ∧ isDigit c = true := by
  obtain ⟨c, digits, hdigits⟩ := List.exists_cons_of_ne_nil hne
  refine ⟨c, by rw [hdigits]; rfl, d.property c (by rw [hdigits]; simp)⟩

/-- After the sign comes a digit or the point. -/
theorem head_body (n : Numeral) (more : Bytes) :
    ∃ c, (n.int.val ++ (n.tail ++ more)).head? = some c
      ∧ (isDigit c = true ∨ c = ch '.') := by
  by_cases hint : n.int.val = []
  · have hne := n.nonempty
    rw [hint, List.nil_append] at hne
    cases hfrac : n.frac with
    | none =>
        rw [hfrac] at hne
        exact absurd rfl hne
    | some digits =>
        refine ⟨ch '.', ?_, Or.inr rfl⟩
        rw [hint, tail, hfrac]
        rfl
  · obtain ⟨c, hhead, hc⟩ := digits_head n.int hint (n.tail ++ more)
    exact ⟨c, hhead, Or.inl hc⟩

theorem head_text (n : Numeral) (more : Bytes) :
    decide ((n.text ++ more).head? = some (ch '-')) = n.neg
      ∧ afterSign (n.text ++ more) = n.int.val ++ (n.tail ++ more) := by
  rw [text_eq, List.append_assoc, List.append_assoc]
  unfold afterSign
  cases n.neg with
  | true => exact ⟨rfl, rfl⟩
  | false =>
      show decide ((n.int.val ++ (n.tail ++ more)).head? = _) = false ∧ _
      obtain ⟨c, hhead, hc⟩ := n.head_body more
      have hminus : (n.int.val ++ (n.tail ++ more)).head? ≠ some (ch '-') := by
        rw [hhead]
        rintro ⟨⟩
        revert hc
        decide
      exact ⟨decide_eq_false hminus, if_neg hminus⟩

theorem expText_head (n : Numeral) (hstop : Stops n rest) :
    (expText n.exp ++ rest).head?.any isDigit = false := by
  cases hexp : n.exp with
  | none => exact hstop.digit
  | some e => exact isDigit_marker e.isMarker

theorem tail_head (n : Numeral) (hstop : Stops n rest) :
    (n.tail ++ rest).head?.any isDigit = false := by
  unfold tail
  cases hfrac : n.frac with
  | none => exact n.expText_head hstop
  | some digits => rfl

end Numeral

theorem scanFraction_text (hstop : Stops n rest) :
    scanFraction (n.tail ++ rest) = (n.frac, Numeral.expText n.exp ++ rest) := by
  unfold Numeral.tail scanFraction
  cases hfrac : n.frac with
  | some digits =>
      have hhead := n.expText_head hstop
      show (some (takeDigits (digits.val ++ Numeral.expText n.exp ++ rest)),
        (digits.val ++ Numeral.expText n.exp ++ rest).dropWhile isDigit) = _
      rw [List.append_assoc, takeDigits_append digits hhead,
        dropDigits_append digits hhead]
  | none =>
      have hpoint : (Numeral.expText n.exp ++ rest).head? ≠ some (ch '.') := by
        cases hexp : n.exp with
        | none => exact hstop.point hfrac hexp
        | some e =>
            intro hhead
            have hmarker : e.marker = ch '.' := Option.some.inj hhead
            rcases e.isMarker with h | h
            · rw [h] at hmarker
              cases hmarker
            · rw [h] at hmarker
              cases hmarker
      exact if_neg hpoint

theorem scanExponent_expText (hstop : Stops n rest) :
    scanExponent (Numeral.expText n.exp ++ rest) = n.exp.map fun e => (e, rest) := by
  cases hexp : n.exp with
  | none => exact hstop.exponent hexp
  | some e => exact scanExponent_text e hstop.digit

/-- The numeral is read, and nothing else. -/
theorem scanNumeral_text (hstop : Stops n rest) :
    scanNumeral (n.text ++ rest) = some (n, rest) := by
  obtain ⟨hneg, hbody⟩ := n.head_text rest
  have htail := n.tail_head hstop
  unfold scanNumeral
  dsimp only
  simp only [hneg, hbody, takeDigits_append n.int htail, dropDigits_append n.int htail,
    scanFraction_text hstop, scanExponent_expText hstop]
  rw [dif_pos n.nonempty]
  split
  next e after hscan =>
    obtain ⟨e', hexp, hpair⟩ := Option.map_eq_some_iff.mp hscan
    cases hpair
    cases n
    cases hexp
    rfl
  next hscan =>
    have hexp := Option.map_eq_none_iff.mp hscan
    cases n
    cases hexp
    rfl

/-- More digits at the end of a numeral. -/
theorem exists_extended (n : Numeral) {c : UInt8} (hc : isDigit c = true) :
    ∃ m : Numeral, m.text = n.text ++ [c] := by
  have hextend : ∀ d : Digits, ∀ b ∈ d.val ++ [c], isDigit b = true := by
    intro d
    rw [List.forall_mem_append, List.forall_mem_singleton]
    exact ⟨d.property, hc⟩
  obtain ⟨neg, int, frac, exp, hne⟩ := n
  cases exp with
  | some e =>
      obtain ⟨marker, sign, digits, hmarker, hsign, hdigits⟩ := e
      refine ⟨⟨neg, int, frac, some ⟨marker, sign, ⟨digits.val ++ [c], hextend digits⟩,
        hmarker, hsign, by simp⟩, hne⟩, ?_⟩
      simp [Numeral.text, Numeral.expText, Exponent.text]
  | none =>
      cases frac with
      | some digits =>
          refine ⟨⟨neg, int, some ⟨digits.val ++ [c], hextend digits⟩, none,
            by simp⟩, ?_⟩
          simp [Numeral.text, Numeral.expText, Numeral.fracText]
      | none =>
          refine ⟨⟨neg, ⟨int.val ++ [c], hextend int⟩, none, none, by simp⟩, ?_⟩
          simp [Numeral.text, Numeral.expText, Numeral.fracText]

/-- What continues a numeral would make a longer one. -/
theorem stops_of_longest (h : Longest n rest) : Stops n rest where
  digit := by
    cases rest with
    | nil => rfl
    | cons c rest =>
        by_contra hdigit
        rw [Bool.not_eq_false] at hdigit
        obtain ⟨m, hm⟩ := exists_extended n hdigit
        have hlength := h m (by rw [hm]; exact ⟨rest, by simp⟩)
        rw [hm, List.length_append, List.length_singleton] at hlength
        omega
  point hfrac hexp hpoint := by
    obtain ⟨after, rfl⟩ : ∃ after, rest = ch '.' :: after := by
      cases rest with
      | nil => cases hpoint
      | cons c rest => exact ⟨rest, by rw [Option.some.inj hpoint]⟩
    obtain ⟨neg, int, frac, exp, hne⟩ := n
    cases hfrac
    cases hexp
    have hlength := h ⟨neg, int, some ⟨[], List.forall_mem_nil _⟩, none, hne⟩
      ⟨after, by simp [Numeral.text, Numeral.fracText, Numeral.expText]⟩
    simp [Numeral.text, Numeral.fracText, Numeral.expText] at hlength
  exponent hexp := by
    cases hscan : scanExponent rest with
    | none => rfl
    | some found =>
        obtain ⟨e, after⟩ := found
        obtain rfl := scanExponent_some hscan
        obtain ⟨neg, int, frac, exp, hne⟩ := n
        cases hexp
        have hlength := h ⟨neg, int, frac, some e, hne⟩
          ⟨after, by simp [Numeral.text, Numeral.fracText, Numeral.expText]⟩
        simp [Numeral.text, Numeral.expText, Exponent.text] at hlength

-- ============================================================ what is read

theorem fromCharsDouble_text (hstop : Stops n rest) :
    fromCharsDouble (n.text ++ rest) =
      match binary64.round n.value with
      | none => ⟨.resultOutOfRange, rest, 0⟩
      | some v => ⟨.none, rest, v⟩ := by
  unfold fromCharsDouble
  cases hround : binary64.round n.value with
  | none => simp only [scanNumeral_text hstop, hround]
  | some v => simp only [scanNumeral_text hstop, hround]

theorem fromCharsInt32_text (hstop : Stops n rest) :
    fromCharsInt32 (n.text ++ rest) =
      if n.int.val = [] then ⟨.invalidArgument, n.text ++ rest, 0⟩
      else if InInt32 n.intValue then
        ⟨.none, n.tail ++ rest, Int32.ofInt n.intValue⟩
      else ⟨.resultOutOfRange, n.tail ++ rest, 0⟩ := by
  obtain ⟨hneg, hbody⟩ := n.head_text rest
  have htail := n.tail_head hstop
  have hdigits := congrArg Subtype.val (takeDigits_append n.int htail)
  unfold fromCharsInt32
  dsimp only
  rw [hneg, hbody, dropDigits_append n.int htail]
  rw [show (n.int.val ++ (n.tail ++ rest)).takeWhile isDigit = n.int.val from hdigits]
  simp only [List.isEmpty_iff]
  rfl

theorem text_ne_nil (n : Numeral) (rest : Bytes) : (n.text ++ rest).isEmpty = false := by
  obtain ⟨c, hhead, -⟩ := n.head_body rest
  rw [Numeral.text_eq, List.append_assoc, List.append_assoc, List.isEmpty_eq_false_iff]
  intro hnil
  rw [List.append_eq_nil_iff] at hnil
  rw [hnil.2] at hhead
  cases hhead

theorem fractionalTextToLong_text (hstop : Stops n rest) (out : Int32) :
    fractionalTextToLong (n.text ++ rest) out =
      match binary64.round n.value with
      | none => (.numericOverflow, out)
      | some v =>
          if rest ≠ [] then (.parseError, out)
          else if v ≠ trunc v then (.notIntegral, out)
          else if ¬ InInt32 (trunc v) then (.numericOverflow, out)
          else (.ok, Int32.ofInt (trunc v)) := by
  unfold fractionalTextToLong
  rw [fromCharsDouble_text hstop]
  cases binary64.round n.value with
  | none => rfl
  | some v => simp

/-- What `ParseLong` makes of a numeral and what follows it. -/
theorem parseLong_text (hstop : Stops n rest) (out : Int32) :
    parseLong (n.text ++ rest) out =
      if n.int.val = [] then (.parseError, out)
      else if ¬ InInt32 n.intValue then (.numericOverflow, out)
      else if n.tail ++ rest = [] then (.ok, Int32.ofInt n.intValue)
      else if (n.tail ++ rest).head?.any looksLikeFloatContinuation then
        fractionalTextToLong (n.text ++ rest) out
      else (.parseError, out) := by
  unfold parseLong
  rw [text_ne_nil, fromCharsInt32_text hstop]
  by_cases hint : n.int.val = []
  · simp [hint]
  · by_cases hrange : InInt32 n.intValue
    · simp [hint, hrange]
    · simp [hint, hrange]

-- ============================================================== the numbers

theorem limit_binary64 : binary64.limit = 2 ^ 1024 - 2 ^ 970 := by
  unfold Format.limit binary64
  norm_num

theorem pow_lt_limit : (2 : ℚ) ^ 52 < binary64.limit := by
  have hone : (1 : ℚ) ≤ 2 ^ 970 := one_le_pow₀ (by norm_num)
  have hsplit : (2 : ℚ) ^ 1024 = 2 ^ 970 * 2 ^ 54 := by rw [← pow_add]
  rw [limit_binary64, hsplit]
  calc (2 : ℚ) ^ 52 < 1 * (2 ^ 54 - 1) := by norm_num
    _ ≤ 2 ^ 970 * (2 ^ 54 - 1) := mul_le_mul_of_nonneg_right hone (by norm_num)
    _ = 2 ^ 970 * 2 ^ 54 - 2 ^ 970 := by rw [mul_sub, mul_one]

theorem abs_signed (neg : Bool) (n : Nat) : |signed neg n| = n := by
  unfold signed
  split
  · rw [abs_neg, Nat.abs_cast]
  · exact Nat.abs_cast n

theorem natAbs_le_of_inInt32 {v : Int} (h : InInt32 v) : |v| ≤ 2147483648 := by
  rw [abs_le]
  unfold InInt32 at h
  omega

/-- The magnitude of a number without an exponent lies between its integer
part and the next integer. -/
theorem Numeral.abs_value_lt (hexp : n.exp = none) :
    |n.value| < (decimalValue n.int.val : ℚ) + 1 := by
  unfold value
  rw [hexp, Option.elim_none]
  dsimp only
  generalize hfrac : n.frac.elim [] Subtype.val = frac
  have hdigits : ∀ c ∈ frac, isDigit c = true := by
    rw [← hfrac]
    cases n.frac with
    | none => exact List.forall_mem_nil _
    | some digits => exact digits.property
  have hlt : decimalValue (n.int.val ++ frac)
      < (decimalValue n.int.val + 1) * 10 ^ frac.length := by
    have := decimalValue_lt hdigits
    rw [decimalValue_append, Nat.add_mul]
    omega
  have hpos : (0 : ℚ) < 10 ^ frac.length := by positivity
  rw [abs_mul, zero_sub, zpow_neg, zpow_natCast, abs_inv, abs_of_pos hpos,
    ← div_eq_mul_inv, div_lt_iff₀ hpos]
  have habs : |((signed n.neg (decimalValue (n.int.val ++ frac)) : ℤ) : ℚ)|
      = (decimalValue (n.int.val ++ frac) : ℚ) := by
    rw [← Int.cast_abs, abs_signed, Int.cast_natCast]
  rw [habs]
  exact_mod_cast hlt

theorem ulpExp_neg (h : |x| < 2 ^ 52) : binary64.ulpExp x < 0 := by
  have hlog : Int.log 2 |x| < 52 := by
    rcases eq_or_ne x 0 with rfl | hx
    · rw [abs_zero, Int.log_zero_right]
      decide
    · rw [← Int.lt_zpow_iff_log_lt one_lt_two (abs_pos.mpr hx)]
      exact_mod_cast h
  show max (Int.log 2 |x| - ((53 : ℕ) - 1)) (-1074) < 0
  refine max_lt ?_ (by decide)
  have hprecision : ((53 : ℕ) : ℤ) - 1 = 52 := rfl
  rw [hprecision]
  omega

theorem trunc_intCast (k : Int) : trunc (k : ℚ) = k := by
  unfold trunc
  rw [Int.floor_intCast, Int.ceil_intCast, ite_self]

/-- The double nearest to a small number is there and no integer, exactly when
no integer is near. -/
theorem round_fraction_iff (h : |x| < 2 ^ 52) :
    (∃ v, binary64.round x = some v ∧ v ≠ trunc v)
      ↔ ∀ k : ℤ, binary64.ulp x / 2 < |x - k| := by
  have hinteger := Format.nearest_integer_iff (ulpExp_neg h)
  have hnear : (∀ k : ℤ, binary64.ulp x / 2 < |x - k|)
      ↔ ¬ ∃ k : ℤ, binary64.nearest x = k := by
    rw [hinteger]
    push Not
    rfl
  rw [hnear]
  constructor
  · rintro ⟨v, hround, hv⟩ ⟨k, hk⟩
    apply hv
    rw [Format.round_eq_some hround, hk, trunc_intCast]
  · intro hnone
    have hlimit : |x| < binary64.limit := by
      exact h.trans pow_lt_limit
    refine ⟨binary64.nearest x, ?_, fun htrunc => hnone ⟨_, htrunc⟩⟩
    unfold Format.round
    rw [if_neg (not_le.mpr hlimit), if_neg]
    rintro ⟨-, hzero⟩
    exact hnone ⟨0, by rw [hzero, Int.cast_zero]⟩

/-- The magnitudes that `double` can hold. -/
def FitsDouble (x : ℚ) : Prop :=
  |x| < 2 ^ 1024 - 2 ^ 970 ∧ (x ≠ 0 → 2 ^ (-1075 : ℤ) < |x|)

theorem round_none_iff : binary64.round x = none ↔ ¬ FitsDouble x := by
  rw [Format.round_eq_none_iff (by decide), limit_binary64]
  unfold FitsDouble
  rw [not_and_or, not_lt, Classical.not_imp, not_lt]
  rfl

-- ============================================================== the classes

/-- An integer, with a point and digits that are not all zero. -/
structure Fractional (n : Numeral) : Prop where
  int : n.int.val ≠ []
  exp : n.exp = none
  frac : ∃ digits, n.frac = some digits ∧ ∃ c ∈ digits.val, c ≠ ch '0'

theorem stops_nil (n : Numeral) : Stops n [] where
  digit := rfl
  point _ _ := nofun
  exponent _ := rfl

theorem toInt_of_inInt32 {v : Int} (h : InInt32 v) : (Int32.ofInt v).toInt = v := by
  unfold InInt32 at h
  rw [Int32.toInt_ofInt_of_le] <;> omega

/-- A text that is an integer. -/
theorem parseLong_integer (hfrac : n.frac = none) (hexp : n.exp = none) (out : Int32) :
    parseLong n.text out = if InInt32 n.intValue then (.ok, Int32.ofInt n.intValue)
      else (.numericOverflow, out) := by
  have hint : n.int.val ≠ [] := by
    have hne := n.nonempty
    rwa [hfrac, Option.elim_none, List.append_nil] at hne
  have htail : n.tail ++ [] = [] := by
    unfold Numeral.tail
    rw [hfrac, hexp]
    rfl
  have hparse := parseLong_text (stops_nil n) out
  rw [List.append_nil n.text, if_neg hint, if_pos htail] at hparse
  rw [hparse, ite_not]

theorem natValue_le (h : InInt32 n.intValue) : decimalValue n.int.val ≤ 2147483648 := by
  have habs := natAbs_le_of_inInt32 h
  unfold Numeral.intValue at habs
  rw [abs_signed] at habs
  exact_mod_cast habs

/-- A text with a fraction is called not integral exactly when the integer
before the point fits and no integer is near. -/
theorem parseLong_fractional (h : Fractional n) (out : Int32) :
    parseLong n.text out = (.notIntegral, out)
      ↔ InInt32 n.intValue ∧ ∀ k : ℤ, binary64.ulp n.value / 2 < |n.value - k| := by
  obtain ⟨digits, hfrac, -⟩ := h.frac
  have htail : n.tail ++ [] = ch '.' :: digits.val := by
    unfold Numeral.tail
    rw [hfrac, h.exp]
    simp [Numeral.fracText, Numeral.expText]
  have hparse := parseLong_text (stops_nil n) out
  have hreparse := fractionalTextToLong_text (stops_nil n) out
  rw [List.append_nil n.text] at hparse hreparse
  rw [if_neg h.int, htail, if_neg (List.cons_ne_nil _ _)] at hparse
  by_cases hrange : InInt32 n.intValue
  · have hlooks : (ch '.' :: digits.val).head?.any looksLikeFloatContinuation = true := rfl
    have hsmall : |n.value| < 2 ^ 52 := by
      have hvalue := Numeral.abs_value_lt h.exp
      have hint : ((decimalValue n.int.val : ℕ) : ℚ) ≤ 2147483648 := by
        exact_mod_cast natValue_le hrange
      linarith
    rw [if_neg (not_not.mpr hrange), if_pos hlooks, hreparse] at hparse
    rw [hparse, and_iff_right hrange, ← round_fraction_iff hsmall]
    cases hround : binary64.round n.value with
    | none =>
        refine iff_of_false (by simp) ?_
        rintro ⟨v, hv, -⟩
        cases hv
    | some v =>
        dsimp only
        rw [if_neg (not_not.mpr rfl)]
        by_cases hv : v = trunc v
        · rw [if_neg (not_not.mpr hv)]
          refine iff_of_false (by split <;> simp) ?_
          rintro ⟨w, hw, hne⟩
          rw [← Option.some.inj hw] at hne
          exact hne hv
        · rw [if_pos hv]
          exact iff_of_true rfl ⟨v, rfl, hv⟩
  · rw [if_pos hrange] at hparse
    rw [hparse]
    exact iff_of_false (by simp) fun hcondition => hrange hcondition.1

/-- A number that is only an integer, and in range, fits. -/
theorem fitsDouble_integer (hfrac : n.frac = none) (hexp : n.exp = none)
    (hrange : InInt32 n.intValue) : FitsDouble n.value := by
  have hvalue : n.value = (n.intValue : ℚ) := by
    unfold Numeral.value Numeral.intValue
    rw [hfrac, hexp]
    simp
  have habs : |n.value| ≤ 2147483648 := by
    rw [hvalue, ← Int.cast_abs]
    exact_mod_cast natAbs_le_of_inInt32 hrange
  constructor
  · rw [← limit_binary64]
    refine lt_of_le_of_lt habs (lt_trans ?_ pow_lt_limit)
    norm_num
  · intro hne
    have hpos : n.intValue ≠ 0 := by
      intro h
      rw [hvalue, h, Int.cast_zero] at hne
      exact hne rfl
    have hone : (1 : ℚ) ≤ |n.value| := by
      rw [hvalue, ← Int.cast_abs]
      exact_mod_cast Int.one_le_abs hpos
    refine lt_of_lt_of_le ?_ hone
    rw [← zpow_zero (2 : ℚ)]
    exact zpow_lt_zpow_right₀ (by norm_num) (by decide)

/-- Trailing characters are a parse error, unless the integer or the double
before them does not fit. -/
theorem parseLong_trailing (hstop : Stops n rest) (hrest : rest ≠ []) (out : Int32) :
    parseLong (n.text ++ rest) out = (.parseError, out)
      ↔ (n.int.val ≠ [] → InInt32 n.intValue ∧ FitsDouble n.value) := by
  rw [parseLong_text hstop]
  by_cases hint : n.int.val = []
  · rw [if_pos hint]
    exact iff_of_true rfl fun hne => absurd hint hne
  rw [if_neg hint]
  by_cases hrange : InInt32 n.intValue
  · have hmore : n.tail ++ rest ≠ [] := fun hnil =>
      hrest (List.append_eq_nil_iff.mp hnil).2
    rw [if_neg (not_not.mpr hrange), if_neg hmore]
    split
    next hlooks =>
      rw [fractionalTextToLong_text hstop]
      cases hround : binary64.round n.value with
      | none =>
          refine iff_of_false (by simp) fun hfits => ?_
          exact round_none_iff.mp hround (hfits hint).2
      | some v =>
          dsimp only
          rw [if_pos hrest]
          refine iff_of_true rfl fun _ => ⟨hrange, ?_⟩
          by_contra hfits
          rw [round_none_iff.mpr hfits] at hround
          cases hround
    next hlooks =>
      refine iff_of_true rfl fun _ => ⟨hrange, ?_⟩
      have hfrac : n.frac = none := by
        cases hfrac : n.frac with
        | none => rfl
        | some digits =>
            unfold Numeral.tail at hlooks
            rw [hfrac] at hlooks
            exact absurd rfl hlooks
      have hexp : n.exp = none := by
        cases hexp : n.exp with
        | none => rfl
        | some e =>
            have hmarker : looksLikeFloatContinuation e.marker = true := by
              rcases e.isMarker with h | h
              · rw [h]
                decide
              · rw [h]
                decide
            unfold Numeral.tail at hlooks
            rw [hfrac, hexp] at hlooks
            exact absurd hmarker hlooks
      exact fitsDouble_integer hfrac hexp hrange
  · rw [if_pos hrange]
    exact iff_of_false (by simp) fun hfits => hrange (hfits hint).1

theorem fractionalTextToLong_out (text : Bytes) (out : Int32) :
    (fractionalTextToLong text out).1 = .ok ∨ (fractionalTextToLong text out).2 = out := by
  unfold fractionalTextToLong
  dsimp only
  split
  · exact Or.inr rfl
  split
  · exact Or.inr rfl
  split
  · exact Or.inr rfl
  split
  · exact Or.inr rfl
  · exact Or.inl rfl

/-- `out` is written only when the status is `Ok`. -/
theorem parseLong_out (text : Bytes) (out : Int32) :
    (parseLong text out).1 = .ok ∨ (parseLong text out).2 = out := by
  unfold parseLong
  dsimp only
  split
  · exact Or.inr rfl
  split
  · exact Or.inr rfl
  split
  · exact Or.inl rfl
  split
  · exact fractionalTextToLong_out text out
  · exact Or.inr rfl

/-- `ParseLong` classifies a text by its shape: as an integer, as a fraction,
or as a number with other characters after it. -/
structure Classified (text : Bytes) : Prop where
  integer : ∀ n : Numeral, n.frac = none → n.exp = none → n.text = text → ∀ out,
    (InInt32 n.intValue → ∃ v, parseLong text out = (.ok, v) ∧ v.toInt = n.intValue)
      ∧ (¬ InInt32 n.intValue → parseLong text out = (.numericOverflow, out))
  fractional : ∀ n, Fractional n → n.text = text → ∀ out,
    parseLong text out = (.notIntegral, out)
  trailing : ∀ n rest, Longest n rest → rest ≠ [] → n.text ++ rest = text → ∀ out,
    parseLong text out = (.parseError, out)
  out : ∀ out, (parseLong text out).1 ≠ .ok → (parseLong text out).2 = out

/-- The integer before the point fits, and the double nearest to the number
is there and, for a fraction, no integer. -/
structure Representable (text : Bytes) : Prop where
  fractional : ∀ n, Fractional n → n.text = text →
    InInt32 n.intValue ∧ ∀ k : ℤ, binary64.ulp n.value / 2 < |n.value - k|
  trailing : ∀ n rest, Longest n rest → rest ≠ [] → n.text ++ rest = text →
    n.int.val ≠ [] → InInt32 n.intValue ∧ FitsDouble n.value

/-- `ParseLong` classifies a text by its shape exactly when what it reads of
the text fits. -/
theorem parseLong_classifies_iff (text : Bytes) :
    Classified text ↔ Representable text := by
  constructor
  · rintro ⟨-, hfractional, htrailing, -⟩
    constructor
    · intro n hn htext
      have hparse := hfractional n hn htext 0
      rw [← htext] at hparse
      exact (parseLong_fractional hn 0).mp hparse
    · intro n rest hlongest hrest htext
      have hparse := htrailing n rest hlongest hrest htext 0
      rw [← htext] at hparse
      exact (parseLong_trailing (stops_of_longest hlongest) hrest 0).mp hparse
  · rintro ⟨hfractional, htrailing⟩
    refine ⟨?_, ?_, ?_, ?_⟩
    · rintro n hfrac hexp rfl out
      rw [parseLong_integer hfrac hexp]
      constructor
      · intro hrange
        rw [if_pos hrange]
        exact ⟨_, rfl, toInt_of_inInt32 hrange⟩
      · intro hrange
        rw [if_neg hrange]
    · rintro n hn rfl out
      exact (parseLong_fractional hn out).mpr (hfractional n hn rfl)
    · rintro n rest hlongest hrest rfl out
      exact (parseLong_trailing (stops_of_longest hlongest) hrest out).mpr
        (htrailing n rest hlongest hrest rfl)
    · intro out hstatus
      exact (parseLong_out text out).resolve_left hstatus

/-- `99999999999.5`. -/
def largeHalf : Numeral where
  neg := false
  int := ⟨List.replicate 11 (ch '9'), by decide +kernel⟩
  frac := some ⟨[ch '5'], by decide +kernel⟩
  exp := none
  nonempty := by decide

/-- A large number with a fraction is reported as an overflow. -/
theorem largeHalf_overflows : ¬ Classified largeHalf.text := by
  intro h
  have hfractional : Fractional largeHalf :=
    ⟨by decide, rfl, _, rfl, ch '5', by decide, by decide⟩
  have hparse := h.fractional largeHalf hfractional rfl 0
  have hoverflow : parseLong largeHalf.text 0 = (.numericOverflow, 0) := by
    decide +kernel
  rw [hoverflow] at hparse
  cases hparse

end RestifyCapl
