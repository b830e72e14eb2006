/-
Decimal digit strings, as bytes: the text of a natural, the value of a
text, and the fact that a text without a leading zero is the text of its
value. Loops that print or read digits elsewhere in the development are
compared with these.
-/
import Mathlib.Algebra.Group.Nat.Defs
import Mathlib.Data.List.Induction
import Mathlib.Data.Nat.Init

namespace RestifyCapl.Lib

/-- The byte of a digit below ten. -/
def digit (d : Nat) : UInt8 := UInt8.ofNat (48 + d)

/-- The value of a digit byte. -/
def digitVal (c : UInt8) : Nat := c.toNat - 48

def isDigit (c : UInt8) : Bool := 48 ≤ c && c ≤ 57

/-- Most significant digit first; `fuel` above `n` is enough. -/
def decimalLoop : Nat → Nat → List UInt8
  | 0, _ => []
  | fuel + 1, n =>
      if n < 10 then [digit n]
      else decimalLoop fuel (n / 10) ++ [digit (n % 10)]

/-- The decimal text of a natural, without leading zeros. -/
def decimal (n : Nat) : List UInt8 := decimalLoop (n + 1) n

/-- The natural a text of digits denotes. -/
def decimalValue (s : List UInt8) : Nat :=
  s.foldl (fun v c => 10 * v + digitVal c) 0

/-- No leading zero, and not empty. -/
def Canonical (s : List UInt8) : Prop :=
  s ≠ [] ∧ (1 < s.length → s.head? ≠ some 48)

-- ============================================================= the digits

theorem digit_isDigit {d : Nat} (h : d < 10) : isDigit (digit d) = true := by
  have : ∀ d < 10, isDigit (digit d) = true := by decide
  exact this d h

theorem digitVal_digit {d : Nat} (h : d < 10) : digitVal (digit d) = d := by
  have : ∀ d < 10, digitVal (digit d) = d := by decide
  exact this d h

theorem isDigit_iff {c : UInt8} :
    isDigit c = true ↔ 48 ≤ c.toNat ∧ c.toNat ≤ 57 := by
  unfold isDigit
  rw [Bool.and_eq_true, decide_eq_true_eq, decide_eq_true_eq,
    UInt8.le_iff_toNat_le, UInt8.le_iff_toNat_le]
  rfl

theorem digitVal_lt {c : UInt8} (h : isDigit c = true) : digitVal c < 10 := by
  have := isDigit_iff.mp h
  unfold digitVal
  omega

theorem digit_digitVal {c : UInt8} (h : isDigit c = true) :
    digit (digitVal c) = c := by
  have := isDigit_iff.mp h
  apply UInt8.toNat_inj.mp
  unfold digit digitVal
  rw [UInt8.toNat_ofNat']
  omega

-- ============================================================== printing

theorem decimalLoop_fuel (f g n : Nat) (hf : n < f) (hg : n < g) :
    decimalLoop f n = decimalLoop g n := by
  induction f generalizing g n with
  | zero => omega
  | succ f ih =>
      cases g with
      | zero => omega
      | succ g =>
          unfold decimalLoop
          split
          · rfl
          · rw [ih g (n / 10) (by omega) (by omega)]

theorem decimal_lt {n : Nat} (h : n < 10) : decimal n = [digit n] := by
  rw [decimal, decimalLoop, if_pos h]

theorem decimal_ge {n : Nat} (h : 10 ≤ n) :
    decimal n = decimal (n / 10) ++ [digit (n % 10)] := by
  rw [decimal, decimalLoop, if_neg (by omega), decimal,
    decimalLoop_fuel n (n / 10 + 1) (n / 10) (by omega) (by omega)]

theorem decimal_ne_nil (n : Nat) : decimal n ≠ [] := by
  by_cases h : n < 10
  · rw [decimal_lt h]
    exact List.cons_ne_nil _ _
  · rw [decimal_ge (by omega)]
    simp

theorem decimal_digits (n : Nat) : ∀ c ∈ decimal n, isDigit c = true := by
  induction n using Nat.strong_induction_on with
  | _ n ih =>
      intro c hc
      by_cases h : n < 10
      · rw [decimal_lt h, List.mem_singleton] at hc
        rw [hc]
        exact digit_isDigit h
      · rw [decimal_ge (by omega), List.mem_append,
          List.mem_singleton] at hc
        cases hc with
        | inl hc => exact ih (n / 10) (by omega) c hc
        | inr hc =>
            rw [hc]
            exact digit_isDigit (by omega)

/-- Only zero's text begins with a zero. -/
theorem decimal_head (n : Nat) : (decimal n).head? = some 48 → n = 0 := by
  induction n using Nat.strong_induction_on with
  | _ n ih =>
      intro hn
      by_cases h : n < 10
      · rw [decimal_lt h, List.head?_cons, Option.some.injEq] at hn
        have := digitVal_digit h
        rw [hn] at this
        exact this.symm
      · obtain ⟨a, t, hat⟩ :=
          List.exists_cons_of_ne_nil (decimal_ne_nil (n / 10))
        rw [decimal_ge (by omega), hat, List.cons_append,
          List.head?_cons] at hn
        have := ih (n / 10) (by omega) (by rw [hat, List.head?_cons, hn])
        omega

theorem decimal_canonical (n : Nat) : Canonical (decimal n) := by
  refine ⟨decimal_ne_nil n, fun hlen hhead => ?_⟩
  have h0 := decimal_head n hhead
  rw [h0, decimal_lt (by omega)] at hlen
  simp at hlen

/-- A number below a power of ten has at most that many digits. -/
theorem decimal_length_le {k n : Nat} (h : n < 10 ^ (k + 1)) :
    (decimal n).length ≤ k + 1 := by
  induction k generalizing n with
  | zero =>
      rw [decimal_lt (by omega)]
      exact Nat.le_refl 1
  | succ k ih =>
      by_cases hn : n < 10
      · rw [decimal_lt hn, List.length_singleton]
        omega
      · have hdiv : n / 10 < 10 ^ (k + 1) := by
          rw [Nat.pow_succ] at h
          omega
        rw [decimal_ge (by omega), List.length_append, List.length_singleton]
        exact Nat.succ_le_succ (ih hdiv)

-- =============================================================== reading

theorem decimalValue_snoc (s : List UInt8) (c : UInt8) :
    decimalValue (s ++ [c]) = 10 * decimalValue s + digitVal c := by
  unfold decimalValue
  rw [List.foldl_append]
  rfl

theorem decimalValue_append (s t : List UInt8) :
    decimalValue (s ++ t) = decimalValue s * 10 ^ t.length + decimalValue t := by
  induction t using List.reverseRecOn with
  | nil => simp [decimalValue]
  | append_singleton t c ih =>
      rw [← List.append_assoc, decimalValue_snoc, ih, decimalValue_snoc,
        List.length_append, List.length_singleton, Nat.pow_succ, ← Nat.mul_assoc]
      omega

theorem decimalValue_lt {s : List UInt8} (h : ∀ c ∈ s, isDigit c = true) :
    decimalValue s < 10 ^ s.length := by
  induction s using List.reverseRecOn with
  | nil => decide
  | append_singleton s c ih =>
      have hs := ih fun b hb => h b (List.mem_append_left _ hb)
      have hc := digitVal_lt (h c (by simp))
      rw [decimalValue_snoc, List.length_append, List.length_singleton, Nat.pow_succ]
      omega

theorem decimalValue_decimal (n : Nat) : decimalValue (decimal n) = n := by
  induction n using Nat.strong_induction_on with
  | _ n ih =>
      by_cases h : n < 10
      · rw [decimal_lt h]
        show 10 * 0 + digitVal (digit n) = n
        rw [digitVal_digit h]
        omega
      · rw [decimal_ge (by omega), decimalValue_snoc, ih (n / 10) (by omega),
          digitVal_digit (by omega)]
        omega

theorem decimal_inj {m n : Nat} (h : decimal m = decimal n) : m = n := by
  rw [← decimalValue_decimal m, h, decimalValue_decimal]

/-- A digit string without a leading zero is the text of its value. -/
theorem decimal_decimalValue {s : List UInt8}
    (hdigits : ∀ c ∈ s, isDigit c = true) (hs : Canonical s) :
    decimal (decimalValue s) = s := by
  induction s using List.reverseRecOn with
  | nil => exact absurd rfl hs.1
  | append_singleton s c ih =>
      have hc := hdigits c (by simp)
      have hlt := digitVal_lt hc
      rw [decimalValue_snoc]
      cases s with
      | nil =>
          show decimal (10 * 0 + digitVal c) = [c]
          rw [Nat.mul_zero, Nat.zero_add, decimal_lt hlt, digit_digitVal hc]
      | cons a s =>
          have hhead : a ≠ 48 := by
            intro ha
            exact hs.2 (by simp) (by simp [ha])
          have hrec := ih (fun x hx => hdigits x (List.mem_append_left _ hx))
            ⟨List.cons_ne_nil _ _, fun _ => by simpa using hhead⟩
          have hpos : 0 < decimalValue (a :: s) := by
            rcases Nat.eq_zero_or_pos (decimalValue (a :: s)) with h0 | hpos
            · rw [h0, decimal_lt (by omega)] at hrec
              injection hrec with ha _
              exact absurd ha.symm hhead
            · exact hpos
          rw [decimal_ge (by omega)]
          have hdiv : (10 * decimalValue (a :: s) + digitVal c) / 10
              = decimalValue (a :: s) := by omega
          have hmod : (10 * decimalValue (a :: s) + digitVal c) % 10
              = digitVal c := by omega
          rw [hdiv, hmod, hrec, digit_digitVal hc]

end RestifyCapl.Lib
