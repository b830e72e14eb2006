/-
JSON Pointers, as texts and as paths. A token list has one text
(`pointerText`), and `parsePath` reads exactly these texts back; a token
fits at most one child of a node, and `resolveToken` finds it; so a path
text that resolves is the text of the labels on the way.

The token of an array element is the decimal text of its index, which is
why `parseIndex` accepts canonical decimals and nothing else.
-/
import RestifyCapl.Core.JsonPath
import RestifyCapl.Lib.Split

namespace RestifyCapl

open Lib
open Lib.Rose

variable {F : Type}

-- =============================================================== the text

/-- A byte of a token, escaped. -/
def escapeByte (c : UInt8) : Bytes :=
  if c = ch '~' then [ch '~', ch '0']
  else if c = ch '/' then [ch '~', ch '1']
  else [c]

/-- A token, escaped. -/
def escapeToken (token : Bytes) : Bytes := token.flatMap escapeByte

/-- The text of a token list. -/
def pointerText (tokens : PathTokens) : Bytes :=
  tokens.flatMap fun token => ch '/' :: escapeToken token

theorem slash_not_mem_escapeByte (c : UInt8) : ch '/' ∉ escapeByte c := by
  unfold escapeByte
  split
  · decide
  · rename_i h
    split
    · decide
    · rename_i h'
      rw [List.mem_singleton]
      exact fun heq => h' heq.symm

theorem slash_not_mem_escapeToken (token : Bytes) :
    ch '/' ∉ escapeToken token := by
  unfold escapeToken
  rw [List.mem_flatMap]
  intro ⟨c, _, hc⟩
  exact slash_not_mem_escapeByte c hc

-- ======================================================= decoding a token

/-- Decoding takes one escaped byte off the front. -/
theorem decodeToken_escapeByte (c : UInt8) (rest : Bytes) :
    decodeToken (escapeByte c ++ rest) = (decodeToken rest).map (c :: ·) := by
  unfold escapeByte
  split
  next h =>
    subst h
    show decodeToken (ch '~' :: ch '0' :: rest) = _
    rw [decodeToken, if_neg (by simp), if_neg (by decide), if_pos rfl]
  next h =>
    split
    next h' =>
      subst h'
      show decodeToken (ch '~' :: ch '1' :: rest) = _
      rw [decodeToken, if_neg (by simp), if_pos rfl]
    next =>
      show decodeToken (c :: rest) = _
      cases rest with
      | nil =>
          show (if c ≠ ch '~' then some [c] else none) = some [c]
          rw [if_pos h]
      | cons next rest => rw [decodeToken, if_pos h]

theorem decodeToken_escapeToken (token : Bytes) :
    decodeToken (escapeToken token) = some token := by
  induction token with
  | nil => rfl
  | cons c token ih =>
      show decodeToken (escapeByte c ++ escapeToken token) = _
      rw [decodeToken_escapeByte, ih]
      rfl

/-- A text that decodes, without a slash in it, is the escaped token. -/
theorem escapeToken_of_decodeToken {raw token : Bytes}
    (h : decodeToken raw = some token) (hslash : ch '/' ∉ raw) :
    escapeToken token = raw := by
  induction raw using decodeToken.induct generalizing token with
  | case1 =>
      injection h with h
      rw [← h]
      rfl
  | case2 c hc =>
      rw [decodeToken, if_pos hc, Option.some.injEq] at h
      have hs : c ≠ ch '/' := fun heq => hslash (by rw [heq]; simp)
      rw [← h]
      show escapeByte c ++ [] = [c]
      rw [escapeByte, if_neg hc, if_neg hs]
      rfl
  | case3 c hc =>
      rw [decodeToken, if_neg hc] at h
      cases h
  | case4 c next rest hc ih =>
      rw [decodeToken, if_pos hc] at h
      obtain ⟨t, ht, rfl⟩ := Option.map_eq_some_iff.mp h
      have hs : c ≠ ch '/' := fun heq => hslash (by rw [heq]; simp)
      show escapeByte c ++ escapeToken t = _
      rw [ih ht fun hmem => hslash (List.mem_cons_of_mem _ hmem),
        escapeByte, if_neg hc, if_neg hs]
      rfl
  | case5 c rest hc ih =>
      have hc := Decidable.not_not.mp hc
      subst hc
      rw [decodeToken, if_neg (by simp), if_pos rfl] at h
      obtain ⟨t, ht, rfl⟩ := Option.map_eq_some_iff.mp h
      show escapeByte (ch '/') ++ escapeToken t = _
      rw [ih ht fun hmem => hslash
        (List.mem_cons_of_mem _ (List.mem_cons_of_mem _ hmem))]
      rfl
  | case6 c rest hc _ ih =>
      have hc := Decidable.not_not.mp hc
      subst hc
      rw [decodeToken, if_neg (by simp), if_neg (by decide), if_pos rfl] at h
      obtain ⟨t, ht, rfl⟩ := Option.map_eq_some_iff.mp h
      show escapeByte (ch '~') ++ escapeToken t = _
      rw [ih ht fun hmem => hslash
        (List.mem_cons_of_mem _ (List.mem_cons_of_mem _ hmem))]
      rfl
  | case7 c next rest hc h1 h0 =>
      rw [decodeToken, if_neg hc, if_neg h1, if_neg h0] at h
      cases h

theorem isDigit_plain {c : UInt8} (h : isDigit c = true) :
    c ≠ ch '~' ∧ c ≠ ch '/' := by
  constructor
  · intro heq
    rw [heq] at h
    exact absurd h (by decide)
  · intro heq
    rw [heq] at h
    exact absurd h (by decide)

/-- An index has nothing to escape. -/
theorem escapeToken_decimal (n : Nat) :
    escapeToken (decimal n) = decimal n := by
  have hplain : ∀ c ∈ decimal n, escapeByte c = [c] := by
    intro c hc
    obtain ⟨htilde, hslash⟩ := isDigit_plain (decimal_digits n c hc)
    rw [escapeByte, if_neg htilde, if_neg hslash]
  unfold escapeToken
  rw [List.flatMap_congr hplain]
  exact List.flatMap_pure_eq_map id _ |>.trans (List.map_id _)

-- ========================================================= parsing a path

/-- A non-empty token list, as the text `parsePath` splits. -/
theorem pointerText_cons (token : Bytes) (tokens : PathTokens) :
    pointerText (token :: tokens)
      = ch '/' :: [ch '/'].intercalate
          ((token :: tokens).map escapeToken) := by
  induction tokens generalizing token with
  | nil => simp [pointerText, List.intercalate]
  | cons token' tokens ih =>
      have hsplit : pointerText (token :: token' :: tokens)
          = ch '/' :: escapeToken token ++ pointerText (token' :: tokens) :=
        rfl
      rw [hsplit, ih]
      simp [List.intercalate]

theorem mapM_decodeToken_escapeToken (tokens : PathTokens) :
    (tokens.map escapeToken).mapM decodeToken = some tokens := by
  induction tokens with
  | nil => rfl
  | cons token tokens ih =>
      rw [List.map_cons, List.mapM_cons, decodeToken_escapeToken, ih]
      rfl

theorem map_escapeToken_of_mapM {raws : List Bytes} {tokens : PathTokens}
    (h : raws.mapM decodeToken = some tokens)
    (hslash : ∀ raw ∈ raws, ch '/' ∉ raw) :
    tokens.map escapeToken = raws := by
  induction raws generalizing tokens with
  | nil =>
      injection h with h
      rw [← h]
      rfl
  | cons raw raws ih =>
      rw [List.mapM_cons] at h
      cases hraw : decodeToken raw with
      | none =>
          rw [hraw] at h
          cases h
      | some token =>
          cases hrest : raws.mapM decodeToken with
          | none =>
              rw [hraw, hrest] at h
              cases h
          | some rest =>
              rw [hraw, hrest] at h
              injection h with h
              rw [← h, List.map_cons,
                escapeToken_of_decodeToken hraw
                  (hslash raw (List.mem_cons_self ..)),
                ih hrest fun r hr => hslash r (List.mem_cons_of_mem _ hr)]

theorem parsePath_pointerText (tokens : PathTokens) :
    parsePath (some (pointerText tokens)) = .ok tokens := by
  cases tokens with
  | nil => rfl
  | cons token tokens =>
      have hslash : ∀ raw ∈ (token :: tokens).map escapeToken,
          ch '/' ∉ raw := by
        intro raw hraw
        obtain ⟨t, _, rfl⟩ := List.mem_map.mp hraw
        exact slash_not_mem_escapeToken t
      rw [pointerText_cons]
      unfold parsePath
      dsimp only
      rw [if_neg (by simp),
        List.splitOn_intercalate _ hslash (by simp),
        mapM_decodeToken_escapeToken]

/-- `parsePath` reads the texts of token lists, and no other. -/
theorem parsePath_ok_iff {path : StringView} {tokens : PathTokens} :
    parsePath path = .ok tokens ↔ path = some (pointerText tokens) := by
  constructor
  · intro h
    unfold parsePath at h
    split at h
    next => cases h
    next =>
      injection h with h
      rw [← h]
      rfl
    next c rest =>
      split at h
      next => cases h
      next hc =>
        have hc := Decidable.not_not.mp hc
        subst hc
        split at h
        next => cases h
        next tokens' hmap =>
          injection h with h
          subst h
          have hraws := map_escapeToken_of_mapM hmap fun raw hraw =>
            not_mem_of_mem_splitOn hraw
          cases tokens' with
          | nil =>
              exact absurd hraws.symm (List.splitOn_ne_nil _ _)
          | cons token tokens =>
              rw [pointerText_cons, hraws, List.intercalate_splitOn]
  · intro h
    rw [h, parsePath_pointerText]

/-- Token lists with the same text are the same list. -/
theorem pointerText_inj {tokens tokens' : PathTokens}
    (h : pointerText tokens = pointerText tokens') : tokens = tokens' := by
  have hp := parsePath_pointerText tokens
  rw [h, parsePath_pointerText tokens'] at hp
  injection hp with hp
  exact hp.symm

end RestifyCapl
