/-
`ParsePath` is one half of a bijection. It accepts the texts of RFC 6901,
the empty one and those that start with a slash and escape with `~0` and
`~1` only (`parsePath_ok_iff_grammar`); each of these is the text of the
tokens it reads, with the escapes of `AppendEscapedToken`, and each token
list is read back from its text.
-/
import RestifyCapl.Mapping.Proofs.Traversal

namespace RestifyCapl

open Lib

-- ================================================================ the loop

/-- One round of the loop. -/
theorem parseTokens_round (tokens : PathTokens) (rest : Bytes) :
    parseTokens tokens rest
      = match decodeToken (rest.takeWhile (· != ch '/')),
            rest.dropWhile (· != ch '/') with
        | none, _ => none
        | some token, [] => some (tokens ++ [token])
        | some token, _ :: after => parseTokens (tokens ++ [token]) after := by
  rw [parseTokens]
  cases decodeToken (rest.takeWhile (· != ch '/')) with
  | none => rfl
  | some token =>
      dsimp only
      split
      next hdrop => rw [hdrop]
      next hdrop => rw [hdrop]

/-- The loop decodes what lies between the slashes. -/
theorem parseTokens_eq (tokens : PathTokens) (rest : Bytes) :
    parseTokens tokens rest
      = ((rest.splitOn (ch '/')).mapM decodeToken).map (tokens ++ ·) := by
  rw [splitOn_eq_takeWhile, List.mapM_cons]
  induction tokens, rest using parseTokens.induct with
  | case1 tokens rest hraw =>
      rw [parseTokens_round, hraw]
      rfl
  | case2 tokens rest token hraw hdrop =>
      rw [parseTokens_round, hraw, hdrop]
      rfl
  | case3 tokens rest token hraw c after hdrop ih =>
      rw [parseTokens_round, hraw, hdrop]
      dsimp only
      rw [ih, ← List.mapM_cons, ← splitOn_eq_takeWhile]
      cases (after.splitOn (ch '/')).mapM decodeToken with
      | none => rfl
      | some tokens' =>
          show some (tokens ++ [token] ++ tokens') = _
          rw [List.append_assoc]
          rfl

/-- Both readings of `ParsePath` agree. -/
theorem parsePathInto_eq (path : StringView) (out : PathTokens) :
    parsePathInto path out
      = match parsePath path with
        | .ok tokens => (.ok, tokens)
        | .error status => (status, out) := by
  unfold parsePathInto parsePath
  cases path with
  | none => rfl
  | some p =>
      cases p with
      | nil => rfl
      | cons c rest =>
          dsimp only
          by_cases hc : c ≠ ch '/'
          · rw [if_pos hc, if_pos hc]
          · rw [if_neg hc, if_neg hc, parseTokens_eq]
            cases (rest.splitOn (ch '/')).mapM decodeToken with
            | none => rfl
            | some tokens => rfl

-- ============================================================= the grammar

/-- Every tilde is followed by a zero or a one. -/
def EscapesComplete (p : Bytes) : Prop :=
  ∀ i : Nat, p[i]? = some (ch '~') →
    p[i + 1]? = some (ch '0') ∨ p[i + 1]? = some (ch '1')

theorem escapesComplete_nil : EscapesComplete [] := by
  intro i h
  rw [List.getElem?_nil] at h
  cases h

theorem escapesComplete_cons {c : UInt8} {p : Bytes} :
    EscapesComplete (c :: p) ↔ (c = ch '~' →
        p.head? = some (ch '0') ∨ p.head? = some (ch '1'))
      ∧ EscapesComplete p := by
  constructor
  · intro h
    refine ⟨fun hc => ?_, fun i hi => h (i + 1) hi⟩
    rw [List.head?_eq_getElem?]
    exact h 0 (by rw [hc]; rfl)
  · rintro ⟨hhead, hrest⟩ i hi
    cases i with
    | zero =>
        rw [List.head?_eq_getElem?] at hhead
        exact hhead (Option.some.inj hi)
    | succ i => exact hrest i hi

theorem slash_plain : ch '/' ≠ ch '~' ∧ ch '/' ≠ ch '0' ∧ ch '/' ≠ ch '1' := by
  decide

theorem escapesComplete_slash {b : Bytes} :
    EscapesComplete (ch '/' :: b) ↔ EscapesComplete b := by
  rw [escapesComplete_cons]
  exact and_iff_right fun h => absurd h slash_plain.1

/-- A slash ends what stands before it. -/
theorem escapesComplete_append {a b : Bytes} :
    EscapesComplete (a ++ ch '/' :: b)
      ↔ EscapesComplete a ∧ EscapesComplete b := by
  induction a with
  | nil =>
      rw [List.nil_append, escapesComplete_slash]
      exact (and_iff_right escapesComplete_nil).symm
  | cons c a ih =>
      rw [List.cons_append, escapesComplete_cons, escapesComplete_cons, ih,
        and_assoc]
      cases a with
      | nil => simp [slash_plain.2.1, slash_plain.2.2]
      | cons d a => rfl

/-- A token is decoded when its escapes are complete. -/
theorem decodeToken_iff {raw : Bytes} :
    (∃ token, decodeToken raw = some token) ↔ EscapesComplete raw := by
  induction raw using decodeToken.induct with
  | case1 => exact iff_of_true ⟨[], rfl⟩ escapesComplete_nil
  | case2 c hc =>
      rw [escapesComplete_cons]
      refine iff_of_true ⟨[c], ?_⟩ ⟨fun h => absurd h hc, escapesComplete_nil⟩
      rw [decodeToken, if_pos hc]
  | case3 c hc =>
      rw [escapesComplete_cons, decodeToken, if_neg hc]
      have hc := Decidable.not_not.mp hc
      simp [hc]
  | case4 c next rest hc ih =>
      rw [escapesComplete_cons, ← ih, decodeToken, if_pos hc]
      simp [hc]
  | case5 c rest hc ih =>
      rw [escapesComplete_cons, escapesComplete_cons, ← ih, decodeToken,
        if_neg hc, if_pos rfl]
      have hplain : ch '1' ≠ ch '~' := by decide
      simp [hplain]
  | case6 c rest hc h1 ih =>
      rw [escapesComplete_cons, escapesComplete_cons, ← ih, decodeToken,
        if_neg hc, if_neg h1, if_pos rfl]
      have hplain : ch '0' ≠ ch '~' := by decide
      simp [hplain]
  | case7 c next rest hc h1 h0 =>
      rw [escapesComplete_cons, decodeToken, if_neg hc, if_neg h1, if_neg h0]
      have hc := Decidable.not_not.mp hc
      simp [hc, h1, h0]

theorem mapM_decodeToken_iff {raws : List Bytes} :
    (∃ tokens, raws.mapM decodeToken = some tokens)
      ↔ ∀ raw ∈ raws, EscapesComplete raw := by
  induction raws with
  | nil => exact iff_of_true ⟨[], rfl⟩ nofun
  | cons raw raws ih =>
      rw [List.forall_mem_cons, ← ih, ← decodeToken_iff, List.mapM_cons]
      cases hraw : decodeToken raw with
      | none => simp
      | some token =>
          cases hrest : raws.mapM decodeToken with
          | none => simp
          | some tokens => simp

/-- The escapes of a text are complete when those of its tokens are. -/
theorem escapesComplete_split {rest : Bytes} :
    (∀ raw ∈ rest.splitOn (ch '/'), EscapesComplete raw)
      ↔ EscapesComplete rest := by
  have hjoin : [ch '/'].intercalate (rest.splitOn (ch '/')) = rest :=
    List.intercalate_splitOn _
  have hne := List.splitOn_ne_nil (ch '/') rest
  generalize rest.splitOn (ch '/') = raws at hjoin hne
  subst hjoin
  induction raws with
  | nil => exact absurd rfl hne
  | cons raw raws ih =>
      cases raws with
      | nil => simp [List.intercalate]
      | cons raw' raws =>
          have hrest := ih (List.cons_ne_nil raw' raws)
          have hcons : [ch '/'].intercalate (raw :: raw' :: raws)
              = raw ++ ch '/' :: [ch '/'].intercalate (raw' :: raws) := by
            simp [List.intercalate]
          rw [List.forall_mem_cons, hcons, escapesComplete_append]
          exact and_congr_right fun _ => hrest

/-- Which texts `ParsePath` accepts. -/
theorem parsePath_ok_iff_grammar {p : Bytes} :
    (∃ tokens, parsePath (some p) = .ok tokens)
      ↔ p = [] ∨ p.head? = some (ch '/') ∧ EscapesComplete p := by
  cases p with
  | nil => exact iff_of_true ⟨[], rfl⟩ (Or.inl rfl)
  | cons c rest =>
      unfold parsePath
      dsimp only
      by_cases hc : c = ch '/'
      · subst hc
        rw [if_neg (not_not.mpr rfl), escapesComplete_slash,
          ← escapesComplete_split, ← mapM_decodeToken_iff]
        cases (rest.splitOn (ch '/')).mapM decodeToken with
        | none => simp
        | some tokens => simp
      · rw [if_pos hc]
        simp [hc]

-- ============================================================ the bijection

/-- `/` and the escape of each token, appended as `FlattenDocument` does. -/
def appendPath (tokens : PathTokens) : Bytes :=
  tokens.foldl (fun path token => appendEscapedToken (path ++ [ch '/']) token) []

theorem appendPath_eq (tokens : PathTokens) :
    appendPath tokens = pointerText tokens := by
  have hrun : ∀ (tokens : PathTokens) (path : Bytes), tokens.foldl
      (fun path token => appendEscapedToken (path ++ [ch '/']) token) path
      = path ++ pointerText tokens := by
    intro tokens
    induction tokens with
    | nil => exact fun path => (List.append_nil path).symm
    | cons token tokens ih =>
        intro path
        rw [List.foldl_cons, ih, appendEscapedToken_eq]
        show _ = path ++ (ch '/' :: escapeToken token ++ pointerText tokens)
        simp
  exact hrun tokens []

theorem parsePath_not_ok {path : StringView} {status : Status}
    (h : parsePath path = .error status) : status ≠ .ok := by
  rcases parsePath_error h with rfl | rfl <;> decide

/-- `ParsePath` reads the texts of RFC 6901 into token lists, one to one,
and writes its out parameter for these only. -/
theorem parsePath_bijective :
    (∀ (p : Bytes) (out : PathTokens), (parsePathInto (some p) out).1 = .ok
      ↔ p = [] ∨ p.head? = some (ch '/') ∧ EscapesComplete p)
      ∧ (∀ tokens out : PathTokens,
        parsePathInto (some (appendPath tokens)) out = (.ok, tokens))
      ∧ (∀ (p : Bytes) (out : PathTokens),
        (parsePathInto (some p) out).1 = .ok →
          appendPath (parsePathInto (some p) out).2 = p)
      ∧ ∀ (path : StringView) (out : PathTokens),
        (parsePathInto path out).1 ≠ .ok → (parsePathInto path out).2 = out := by
  refine ⟨?_, ?_, ?_, ?_⟩
  · intro p out
    rw [← parsePath_ok_iff_grammar, parsePathInto_eq]
    cases hparse : parsePath (some p) with
    | ok tokens => simp
    | error status => simp [parsePath_not_ok hparse]
  · intro tokens out
    rw [parsePathInto_eq, appendPath_eq, parsePath_pointerText]
  · intro p out h
    rw [parsePathInto_eq] at h ⊢
    cases hparse : parsePath (some p) with
    | ok tokens =>
        have hpath := parsePath_ok_iff.mp hparse
        rw [appendPath_eq]
        exact (Option.some.inj hpath).symm
    | error status =>
        rw [hparse] at h
        exact absurd h (parsePath_not_ok hparse)
  · intro path out h
    rw [parsePathInto_eq] at h ⊢
    cases hparse : parsePath path with
    | ok tokens =>
        rw [hparse] at h
        exact absurd rfl h
    | error status => rfl

/-- Empty tokens at both ends, and escapes that make a new escape. -/
example : parsePathInto (some (literal ['/', '/', '~', '0', '1', '/'])) []
    = (.ok, [[], literal ['~', '1'], []]) := by decide +kernel

end RestifyCapl
