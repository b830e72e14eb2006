/-
`ParseLong` and `ParseDouble` read one text alike. `ParseLong` reads the
digits before the point for themselves and the whole text only where they
are followed by what may continue a number; still it accepts exactly the
texts that `ParseDouble` reads as an integer of its type, as far as these
have digits before the point and the digits themselves fit
(`parseLong_iff_parseDouble`). What it calls not integral, `ParseDouble`
reads as a number that is none.
-/
import RestifyCapl.Core.ParseDouble
import RestifyCapl.Core.Proofs.ParseLong

namespace RestifyCapl

open Lib

variable {text rest : Bytes} {n : Numeral} {x : ℚ}

-- =============================================================== the words

theorem lowerCase_of_body {c : UInt8} (h : isDigit c = true ∨ c = ch '.') :
    lowerCase c = c := by
  unfold lowerCase
  rw [if_neg]
  rintro ⟨hlo, -⟩
  rcases h with h | rfl
  · have hdigit := (isDigit_iff.mp h).2
    have hlo : (ch 'A').toNat ≤ c.toNat := UInt8.le_iff_toNat_le.mp hlo
    have hletter : (ch 'A').toNat = 65 := rfl
    omega
  · exact absurd hlo (by decide)

/-- A text that begins like a number begins like no word. -/
theorem afterWord_of_body {word : Bytes} {c : UInt8} (hhead : text.head? = some c)
    (hc : isDigit c = true ∨ c = ch '.')
    (hword : word.head?.any (fun w => !isDigit w && w != ch '.') = true) :
    afterWord word text = none := by
  obtain ⟨rest, rfl⟩ : ∃ rest, text = c :: rest := by
    cases text with
    | nil => cases hhead
    | cons d rest => exact ⟨rest, by rw [Option.some.inj hhead]⟩
  cases word with
  | nil => cases hword
  | cons w ws =>
      unfold afterWord
      rw [if_neg]
      rw [List.length_cons, List.take_succ_cons, List.map_cons,
        lowerCase_of_body hc, List.cons.injEq]
      rintro ⟨rfl, -⟩
      have hword : (!isDigit c && c != ch '.') = true := hword
      rcases hc with h | rfl
      · rw [h] at hword
        cases hword
      · exact absurd hword (by decide)

theorem scanWord_text (n : Numeral) (rest : Bytes) :
    scanWord (n.text ++ rest) = none := by
  obtain ⟨-, hbody⟩ := n.head_text rest
  obtain ⟨c, hhead, hc⟩ := n.head_body rest
  unfold scanWord
  dsimp only
  rw [hbody, afterWord_of_body hhead hc (by decide),
    afterWord_of_body hhead hc (by decide), afterWord_of_body hhead hc (by decide)]
  rfl

-- ============================================================ what is read

/-- What `ParseDouble` makes of a numeral and what follows it. -/
theorem parseDouble_text (hstop : Stops n rest) (out : DoubleValue) :
    parseDouble (n.text ++ rest) out =
      match binary64.round n.value with
      | none => (.numericOverflow, out)
      | some v => if rest = [] then (.ok, .finite v) else (.parseError, out) := by
  unfold parseDouble fromCharsDoubleValue
  rw [text_ne_nil, scanWord_text]
  dsimp only
  rw [fromCharsDouble_text hstop]
  cases binary64.round n.value with
  | none => rfl
  | some v => simp

/-- A numeral at the beginning can be continued to the longest one. -/
theorem exists_longest (m : Numeral) (h : m.text <+: text) :
    ∃ n rest, n.text ++ rest = text ∧ Stops n rest := by
  obtain ⟨rest, hrest⟩ := h
  by_cases hlongest : Longest m rest
  · exact ⟨m, rest, hrest, stops_of_longest hlongest⟩
  · unfold Longest at hlongest
    push Not at hlongest
    obtain ⟨m', hprefix, hlonger⟩ := hlongest
    rw [hrest] at hprefix
    have hle := hprefix.length_le
    exact exists_longest m' hprefix
termination_by text.length - m.text.length

/-- Digits after the sign begin a numeral. -/
theorem exists_numeral (h : (afterSign text).takeWhile isDigit ≠ []) :
    ∃ m : Numeral, m.text <+: text := by
  have hne : (takeDigits (afterSign text)).val ++ [] ≠ [] := by
    rw [List.append_nil]
    exact h
  have hbody : (takeDigits (afterSign text)).val
      ++ (afterSign text).dropWhile isDigit = afterSign text :=
    List.takeWhile_append_dropWhile
  have hsign : Numeral.signText (decide (text.head? = some (ch '-')))
      ++ afterSign text = text := by
    unfold Numeral.signText afterSign
    cases text with
    | nil => rfl
    | cons c text =>
        by_cases hc : c = ch '-'
        · subst hc
          rfl
        · simp [hc]
  refine ⟨⟨decide (text.head? = some (ch '-')), takeDigits (afterSign text), none,
    none, hne⟩, (afterSign text).dropWhile isDigit, ?_⟩
  unfold Numeral.text Numeral.fracText Numeral.expText
  simp only [Option.elim_none, List.append_nil]
  rw [List.append_assoc, hbody, hsign]

/-- A text that `ParseLong` reads digits of begins with a numeral. -/
theorem numeral_of_parseLong {out : Int32}
    (hempty : (parseLong text out).1 ≠ .invalidArgument)
    (herror : (parseLong text out).1 ≠ .parseError) :
    ∃ n rest, n.text ++ rest = text ∧ Stops n rest := by
  have hdigits : (afterSign text).takeWhile isDigit ≠ [] := by
    intro hnone
    have hint : fromCharsInt32 text = ⟨.invalidArgument, text, 0⟩ := by
      unfold fromCharsInt32
      dsimp only
      rw [hnone]
      rfl
    unfold parseLong at hempty herror
    rw [hint] at hempty herror
    by_cases hnil : text.isEmpty = true
    · rw [if_pos hnil] at hempty
      exact hempty rfl
    · rw [if_neg hnil] at herror
      exact herror rfl
  obtain ⟨m, hm⟩ := exists_numeral hdigits
  exact exists_longest m hm

-- ============================================================== the numbers

/-- An `int32_t` is a double. -/
theorem round_intCast {k : ℤ} (h : InInt32 k) : binary64.round k = some (k : ℚ) := by
  have habs : |(k : ℚ)| < 2 ^ 52 := by
    have hle : |(k : ℚ)| ≤ 2147483648 := by
      rw [← Int.cast_abs]
      exact_mod_cast natAbs_le_of_inInt32 h
    refine lt_of_le_of_lt hle ?_
    norm_num
  have hnearest := Format.nearest_intCast (ulpExp_neg habs)
  unfold Format.round
  rw [if_neg (not_le.mpr (habs.trans pow_lt_limit)), hnearest, if_neg]
  exact fun hzero => hzero.1 hzero.2

/-- Without a fraction and an exponent a numeral is its integer. -/
theorem value_of_tail_nil (h : n.tail = []) : n.value = n.intValue := by
  obtain ⟨hfrac, hexp⟩ := List.append_eq_nil_iff.mp h
  have hfrac : n.frac = none := by
    cases hf : n.frac with
    | none => rfl
    | some digits =>
        rw [hf] at hfrac
        cases hfrac
  have hexp : n.exp = none := by
    cases he : n.exp with
    | none => rfl
    | some e =>
        rw [he] at hexp
        cases hexp
  unfold Numeral.value Numeral.intValue
  rw [hfrac, hexp]
  simp

/-- What follows the integer may continue a number. -/
theorem tail_looks (h : n.tail ≠ []) :
    n.tail.head?.any looksLikeFloatContinuation = true := by
  unfold Numeral.tail at h ⊢
  cases hfrac : n.frac with
  | some digits => rfl
  | none =>
      rw [hfrac] at h
      cases hexp : n.exp with
      | none =>
          rw [hexp] at h
          exact absurd rfl h
      | some e =>
          show looksLikeFloatContinuation e.marker = true
          rcases e.isMarker with h | h
          · rw [h]
            decide
          · rw [h]
            decide

-- ============================================================== the result

/-- Both parsers on a text that is a numeral whose integer fits. -/
theorem parseLong_numeral (hint : n.int.val ≠ []) (hrange : InInt32 n.intValue)
    (out : Int32) :
    parseLong n.text out =
      match binary64.round n.value with
      | none => (.numericOverflow, out)
      | some v =>
          if v ≠ trunc v then (.notIntegral, out)
          else if ¬ InInt32 (trunc v) then (.numericOverflow, out)
          else (.ok, Int32.ofInt (trunc v)) := by
  have hparse := parseLong_text (stops_nil n) out
  have hreparse := fractionalTextToLong_text (stops_nil n) out
  rw [List.append_nil n.text] at hparse hreparse
  rw [hparse, if_neg hint, if_neg (not_not.mpr hrange), List.append_nil n.tail]
  by_cases htail : n.tail = []
  · rw [if_pos htail, value_of_tail_nil htail, round_intCast hrange]
    dsimp only
    rw [trunc_intCast, if_neg (not_not.mpr rfl), if_neg (not_not.mpr hrange)]
  · rw [if_neg htail, if_pos (tail_looks htail), hreparse]
    cases binary64.round n.value with
    | none => rfl
    | some v => simp

/-- What `ParseLong` reads to its end is a numeral whose integer fits. -/
theorem exists_whole {out : Int32}
    (h : (parseLong text out).1 = .ok ∨ (parseLong text out).1 = .notIntegral) :
    ∃ n : Numeral, n.text = text ∧ n.int.val ≠ [] ∧ InInt32 n.intValue := by
  have hempty : (parseLong text out).1 ≠ .invalidArgument := by
    rcases h with h | h
    · rw [h]
      decide
    · rw [h]
      decide
  have herror : (parseLong text out).1 ≠ .parseError := by
    rcases h with h | h
    · rw [h]
      decide
    · rw [h]
      decide
  obtain ⟨n, rest, rfl, hstop⟩ := numeral_of_parseLong hempty herror
  have hparse := parseLong_text hstop out
  by_cases hint : n.int.val = []
  · rw [if_pos hint] at hparse
    rw [hparse] at herror
    exact absurd rfl herror
  rw [if_neg hint] at hparse
  by_cases hrange : InInt32 n.intValue
  · rw [if_neg (not_not.mpr hrange)] at hparse
    have hrest : rest = [] := by
      by_contra hrest
      have hmore : n.tail ++ rest ≠ [] :=
        fun hnil => hrest (List.append_eq_nil_iff.mp hnil).2
      rw [if_neg hmore, fractionalTextToLong_text hstop] at hparse
      split at hparse
      next =>
        split at hparse
        next =>
          rw [hparse] at h
          rcases h with h | h <;> cases h
        next =>
          rw [hparse] at herror
          exact absurd rfl herror
      next =>
        rw [hparse] at herror
        exact absurd rfl herror
    rw [hrest, List.append_nil]
    exact ⟨n, rfl, hint, hrange⟩
  · rw [if_pos hrange] at hparse
    rw [hparse] at h
    rcases h with h | h <;> cases h

/-- `ParseLong` accepts exactly the texts that `ParseDouble` reads as an
`int32_t`, as far as they have digits before the point and the integer
there fits, and gives the same number; and where it says that a text is
not integral, `ParseDouble` reads a number that is not. -/
theorem parseLong_iff_parseDouble (text : Bytes) (out : Int32) (d : DoubleValue) :
    (∀ v : Int32, parseLong text out = (.ok, v)
      ↔ parseDouble text d = (.ok, .finite v.toInt)
        ∧ ∃ n : Numeral, n.text = text ∧ n.int.val ≠ [] ∧ InInt32 n.intValue)
    ∧ (parseLong text out = (.notIntegral, out)
      ↔ (∃ v : ℚ, parseDouble text d = (.ok, .finite v) ∧ v ≠ trunc v)
        ∧ ∃ n : Numeral, n.text = text ∧ n.int.val ≠ [] ∧ InInt32 n.intValue) := by
  have hdouble : ∀ n : Numeral, parseDouble n.text d =
      match binary64.round n.value with
      | none => (.numericOverflow, d)
      | some v => (.ok, .finite v) := by
    intro n
    have hparse := parseDouble_text (stops_nil n) d
    rw [List.append_nil n.text] at hparse
    rw [hparse]
    cases binary64.round n.value with
    | none => rfl
    | some v => rfl
  constructor
  · intro v
    constructor
    · intro h
      obtain ⟨n, rfl, hint, hrange⟩ := exists_whole (Or.inl (congrArg Prod.fst h))
      refine ⟨?_, n, rfl, hint, hrange⟩
      rw [parseLong_numeral hint hrange] at h
      rw [hdouble]
      cases hround : binary64.round n.value with
      | none =>
          rw [hround] at h
          cases h
      | some x =>
          rw [hround] at h
          dsimp only at h ⊢
          split at h
          next => cases h
          next hx =>
            split at h
            next => cases h
            next hfits =>
              rw [not_not] at hx hfits
              cases h
              rw [toInt_of_inInt32 hfits, ← hx]
    · rintro ⟨h, n, rfl, hint, hrange⟩
      rw [hdouble] at h
      rw [parseLong_numeral hint hrange]
      cases hround : binary64.round n.value with
      | none =>
          rw [hround] at h
          cases h
      | some x =>
          rw [hround] at h
          cases h
          dsimp only
          have hv : InInt32 v.toInt := ⟨v.le_toInt, by have := v.toInt_lt; omega⟩
          rw [trunc_intCast, if_neg (not_not.mpr rfl), if_neg (not_not.mpr hv),
            Int32.ofInt_toInt]
  · constructor
    · intro h
      obtain ⟨n, rfl, hint, hrange⟩ := exists_whole (Or.inr (congrArg Prod.fst h))
      refine ⟨?_, n, rfl, hint, hrange⟩
      rw [parseLong_numeral hint hrange] at h
      rw [hdouble]
      cases hround : binary64.round n.value with
      | none =>
          rw [hround] at h
          cases h
      | some x =>
          rw [hround] at h
          dsimp only at h ⊢
          refine ⟨x, rfl, fun hx => ?_⟩
          rw [if_neg (not_not.mpr hx)] at h
          split at h <;> cases h
    · rintro ⟨⟨x, h, hx⟩, n, rfl, hint, hrange⟩
      rw [hdouble] at h
      rw [parseLong_numeral hint hrange]
      cases hround : binary64.round n.value with
      | none =>
          rw [hround] at h
          cases h
      | some y =>
          rw [hround] at h
          cases h
          dsimp only
          rw [if_pos hx]

end RestifyCapl
