/-
What the signature of a field says about its tokens. The signatures of
the tokens are joined with blanks, and those of a string may hold blanks
of their own: a signature tells the tokens of a field where they are
plain, `eq_of_plainSig`, and the two fields with strings that the
version row has, `eq_of_emptySig` and `eq_of_namesSig`.

In the last one a string could stand for the closing brace; the braces
of a row balance, `readRows_balanced`, and so it does not.
-/
import RestifyCapl.Export.Check
import RestifyCapl.Lib.Split

namespace RestifyCapl.Export

open Ci Lib

variable {f g : Field} {s t : Lexeme}

-- =================================================================== words

/-- The signature of a token up to its first blank. -/
def firstWord (t : Lexeme) : Text := (getTokSig t).takeWhile (· != ' ')

/-- The tokens a signature tells: their own has no blank, and no string
or directive starts with it. -/
def Plain : Lexeme → Prop
  | .str _ => False
  | .punct c => c ≠ ' ' ∧ c ≠ '#'
  | .pp _ => False
  | _ => True

instance : DecidablePred Plain := fun t => by
  cases t <;> unfold Plain <;> infer_instance

theorem isIdentChar_ne_blank {c : Char} (h : isIdentChar c = true) : c ≠ ' ' := by
  rintro rfl
  exact absurd h (by decide)

theorem isAsciiDigit_ne_blank {c : Char} (h : isAsciiDigit c = true) : c ≠ ' ' := by
  rintro rfl
  exact absurd h (by decide)

theorem isIdentChar_of_isIdentStart {c : Char} (h : isIdentStart c = true) :
    isIdentChar c = true := by
  rw [isIdentChar, h, Bool.true_or]

theorem isIdentChar_of_mem {u : Text} (h : isIdentifier u = true) :
    ∀ c ∈ u, isIdentChar c = true := by
  cases u with
  | nil => exact List.forall_mem_nil _
  | cons first u =>
      simp only [isIdentifier, Bool.and_eq_true, List.all_eq_true] at h
      intro c hc
      rcases List.mem_cons.mp hc with rfl | hc
      · exact isIdentChar_of_isIdentStart h.1
      · exact h.2 c hc

theorem blank_not_mem_of_plain (h : Plain t) : ' ' ∉ getTokSig t := by
  cases t with
  | id name =>
      show ' ' ∉ "id:".toList ++ name.text
      rw [List.mem_append, not_or]
      refine ⟨by decide, fun hmem => ?_⟩
      exact isIdentChar_ne_blank (isIdentChar_of_mem name.isIdent _ hmem) rfl
  | str value => exact absurd h id
  | chr value =>
      show ' ' ∉ "c:".toList ++ format value.toNat
      rw [List.mem_append, not_or]
      exact ⟨by decide,
        fun hmem => isAsciiDigit_ne_blank (format_digits _ _ hmem) rfl⟩
  | num value =>
      show ' ' ∉ "n:".toList ++ format value
      rw [List.mem_append, not_or]
      exact ⟨by decide,
        fun hmem => isAsciiDigit_ne_blank (format_digits _ _ hmem) rfl⟩
  | punct c =>
      show ' ' ∉ [c]
      rw [List.mem_singleton]
      exact h.1.symm
  | pp value => exact absurd h id

theorem getTokSig_ne_nil (t : Lexeme) : getTokSig t ≠ [] := by
  cases t with
  | pp value =>
      intro hnil
      have hhash := value.hash
      rw [show value.text = [] from hnil] at hhash
      cases hhash
  | _ => exact List.cons_ne_nil _ _

theorem firstWord_of_plain (h : Plain t) : firstWord t = getTokSig t := by
  rw [firstWord, List.takeWhile_eq_self_iff]
  intro c hc
  rw [bne_iff_ne]
  rintro rfl
  exact blank_not_mem_of_plain h hc

/-- Directives start otherwise than a plain token. -/
theorem head_ne_hash (ht : Plain t) : (getTokSig t).head? ≠ some '#' := by
  cases t with
  | punct c =>
      intro h
      exact ht.2 (Option.some.inj h)
  | str value => exact absurd ht id
  | pp value => exact absurd ht id
  | _ => exact fun h => absurd (Option.some.inj h) (by decide)

/-- Strings start otherwise than a plain token. -/
theorem ne_strSig (ht : Plain t) (rest : Text) : getTokSig t ≠ 's' :: ':' :: rest := by
  cases t with
  | punct c => exact fun h => List.cons_ne_nil _ _ (List.cons.inj h).2.symm
  | str value => exact absurd ht id
  | pp value => exact absurd ht id
  | _ => exact fun h => absurd (List.cons.inj h).1 (by decide)

theorem head_firstWord_pp (d : Directive) : (firstWord (.pp d)).head? = some '#' := by
  obtain ⟨rest, hrest⟩ := List.head?_eq_some_iff.mp d.hash
  rw [firstWord, show getTokSig (.pp d) = '#' :: rest from hrest]
  rfl

theorem plain_of_firstWord (ht : Plain t) (h : firstWord s = getTokSig t) :
    Plain s := by
  cases s with
  | str value => exact absurd h.symm (ne_strSig ht _)
  | punct c =>
      constructor
      · rintro rfl
        exact getTokSig_ne_nil t h.symm
      · rintro rfl
        exact head_ne_hash ht (congrArg List.head? h.symm)
  | pp d => exact absurd (h ▸ head_firstWord_pp d) (head_ne_hash ht)
  | _ => trivial

theorem getTokSig_inj (hs : Plain s) (ht : Plain t) (h : getTokSig s = getTokSig t) :
    s = t := by
  cases s with
  | id name =>
      cases t with
      | id other =>
          have htext : name.text = other.text := List.append_cancel_left h
          rw [show name = other by cases name; cases other; simpa using htext]
      | punct c => exact absurd (List.cons.inj h).2 (List.cons_ne_nil _ _)
      | str value => exact absurd ht id
      | pp value => exact absurd ht id
      | _ => exact absurd (List.cons.inj h).1 (by decide)
  | chr value =>
      cases t with
      | chr other =>
          have hvalue := format_inj (List.append_cancel_left h)
          rw [UInt8.toNat_inj.mp hvalue]
      | punct c => exact absurd (List.cons.inj h).2 (List.cons_ne_nil _ _)
      | str value => exact absurd ht id
      | pp value => exact absurd ht id
      | _ => exact absurd (List.cons.inj h).1 (by decide)
  | num value =>
      cases t with
      | num other => rw [format_inj (List.append_cancel_left h)]
      | punct c => exact absurd (List.cons.inj h).2 (List.cons_ne_nil _ _)
      | str value => exact absurd ht id
      | pp value => exact absurd ht id
      | _ => exact absurd (List.cons.inj h).1 (by decide)
  | punct c =>
      cases t with
      | punct d => rw [(List.cons.inj h).1]
      | str value => exact absurd ht id
      | pp value => exact absurd ht id
      | _ => exact absurd (List.cons.inj h).2.symm (List.cons_ne_nil _ _)
  | str value => exact absurd hs id
  | pp value => exact absurd hs id

theorem eq_of_firstWord (ht : Plain t) (h : firstWord s = getTokSig t) : s = t := by
  have hs := plain_of_firstWord ht h
  rw [firstWord_of_plain hs] at h
  exact getTokSig_inj hs ht h

-- ================================================================== fields

/-- A signature tells plain tokens. -/
theorem eq_of_plainSig (hg : ∀ t ∈ g, Plain t) (h : getFieldSig f = getFieldSig g) :
    f = g :=
  eq_of_map_intercalate getTokSig_ne_nil (fun t ht => blank_not_mem_of_plain (hg t ht))
    (fun t ht _ => eq_of_firstWord (hg t ht)) h

theorem getFieldSig_cons (t : Lexeme) (f : Field) :
    getFieldSig (t :: f) = getTokSig t
      ++ match f with
        | [] => []
        | _ :: _ => ' ' :: getFieldSig f := by
  cases f with
  | nil =>
      rw [List.append_nil]
      exact List.intercalate_singleton
  | cons u f =>
      rw [getFieldSig, List.map_cons, List.map_cons, List.intercalate_cons_cons,
        List.append_assoc]
      rfl

/-- The first word of a field is that of its first token. -/
theorem takeWhile_getFieldSig (t : Lexeme) (f : Field) :
    (getFieldSig (t :: f)).takeWhile (· != ' ') = firstWord t :=
  takeWhile_intercalate ' ' (getTokSig t) (f.map getTokSig)

/-- A field whose first word is a plain token starts with it. -/
theorem exists_cons_of_plain {rest : Text} (ht : Plain t)
    (h : getFieldSig f = getTokSig t ++ ' ' :: rest) :
    ∃ f', f = t :: f' ∧ getFieldSig f' = rest := by
  cases f with
  | nil =>
      have hlen := congrArg List.length h
      rw [List.length_append, List.length_cons] at hlen
      have hnil : (getFieldSig []).length = 0 := rfl
      omega
  | cons s f =>
      have hword := congrArg (List.takeWhile (· != ' ')) h
      rw [takeWhile_getFieldSig, List.takeWhile_append_of_pos, List.takeWhile_cons_of_neg
        (by simp), List.append_nil] at hword
      · rw [eq_of_firstWord ht hword, getFieldSig_cons] at h
        rw [eq_of_firstWord ht hword]
        refine ⟨f, rfl, ?_⟩
        have htail := List.append_cancel_left h
        cases f with
        | nil => cases htail
        | cons u f => exact (List.cons.inj htail).2
      · intro c hc
        rw [bne_iff_ne]
        rintro rfl
        exact blank_not_mem_of_plain ht hc

theorem byteText_inj {as bs : Bytes} (h : byteText as = byteText bs) : as = bs := by
  apply List.map_injective_iff.mpr _ h
  intro a b hab
  have hbyte : ∀ b : UInt8, (Char.ofNat b.toNat).toNat = b.toNat := by
    intro b
    have := b.toNat_lt
    rw [Char.ofNat, dif_pos (Or.inl (by omega))]
    rfl
  have hnat := congrArg Char.toNat hab
  rw [hbyte, hbyte] at hnat
  exact UInt8.toNat_inj.mp hnat

theorem exists_str_of_firstWord {rest : Text} (h : firstWord s = 's' :: ':' :: rest) :
    ∃ value, s = .str value := by
  cases s with
  | str value => exact ⟨value, rfl⟩
  | punct c =>
      have hlen := (List.takeWhile_prefix (p := (· != ' ')) (l := [c])).length_le
      have hword : (firstWord (.punct c)).length ≤ 1 := hlen
      rw [h] at hword
      exact absurd hword (by simp)
  | pp d =>
      have hhash := head_firstWord_pp d
      rw [h] at hhash
      exact absurd (Option.some.inj hhash) (by decide)
  | _ => exact absurd (List.cons.inj h).1 (by decide)

/-- A field that starts like a string does. -/
theorem exists_str {rest : Text} (h : getFieldSig f = 's' :: ':' :: rest) :
    ∃ value f', f = .str value :: f' ∧ rest = byteText value
      ++ match f' with
        | [] => []
        | _ :: _ => ' ' :: getFieldSig f' := by
  cases f with
  | nil => cases h
  | cons s f =>
      have hword := congrArg (List.takeWhile (· != ' ')) h
      rw [takeWhile_getFieldSig] at hword
      obtain ⟨value, rfl⟩ := exists_str_of_firstWord hword
      rw [getFieldSig_cons] at h
      exact ⟨value, f, rfl, (List.cons.inj (List.cons.inj h).2).2.symm⟩

theorem byteText_eq_nil {bs : Bytes} : byteText bs = [] ↔ bs = [] := List.map_eq_nil_iff

/-- The empty string. -/
theorem eq_of_emptySig (h : getFieldSig f = "s:".toList) : f = [.str []] := by
  obtain ⟨value, f, rfl, hrest⟩ := exists_str h
  obtain ⟨hvalue, htail⟩ := List.append_eq_nil_iff.mp hrest.symm
  rw [byteText_eq_nil.mp hvalue]
  cases f with
  | nil => rfl
  | cons s f => cases htail

/-- The list of an empty string, or a string that looks like its end. -/
theorem eq_of_namesSig (h : getFieldSig f = "\x7b s: \x7d".toList) :
    f = [.punct '{', .str [], .punct '}'] ∨ f = [.punct '{', .str [32, 125]] := by
  have hplain : Plain (.punct '{') := by decide
  obtain ⟨f, rfl, hf⟩ := exists_cons_of_plain hplain h
  obtain ⟨value, f, rfl, hrest⟩ := exists_str hf
  cases f with
  | nil =>
      right
      rw [List.append_nil] at hrest
      have hvalue : value = [32, 125] := byteText_inj hrest.symm
      rw [hvalue]
  | cons s f =>
      left
      cases value with
      | nil =>
          have htail : getFieldSig (s :: f) = getFieldSig [.punct '}'] :=
            (List.cons.inj hrest).2.symm
          rw [eq_of_plainSig (by decide) htail]
      | cons b value =>
          have hmore := (List.cons.inj hrest).2
          cases value with
          | nil => exact absurd (List.cons.inj hmore).1 (by decide)
          | cons b' value =>
              exact absurd (List.cons.inj hmore).2.symm
                (List.append_ne_nil_of_right_ne_nil _ (List.cons_ne_nil _ _))

-- ================================================================== braces

/-- What a token adds to the braces that are open. -/
def braceStep (t : Lexeme) : Int :=
  if t = .punct '{' then 1 else if t = .punct '}' then -1 else 0

def balance : Field → Int
  | [] => 0
  | t :: f => braceStep t + balance f

@[simp] theorem balance_nil : balance [] = 0 := rfl

@[simp] theorem balance_cons (t : Lexeme) (f : Field) :
    balance (t :: f) = braceStep t + balance f := rfl

@[simp] theorem balance_append (f g : Field) :
    balance (f ++ g) = balance f + balance g := by
  induction f with
  | nil => simp
  | cons t f ih =>
      rw [List.cons_append, balance_cons, balance_cons, ih]
      omega

/-- At the brace that closes the rest, one is open. -/
theorem closeBrace_balance {depth : Int} {e : Nat} (h : closeBrace depth f = some e) :
    depth + balance (f.take e) = 1 := by
  induction f generalizing depth e with
  | nil => cases h
  | cons t f ih =>
      have hstep : ∀ {d : Int}, (closeBrace d f).map (· + 1) = some e →
          d = depth + braceStep t → depth + balance ((t :: f).take e) = 1 := by
        intro d hd hdepth
        obtain ⟨e', he, rfl⟩ := Option.map_eq_some_iff.mp hd
        have hrest := ih he
        rw [List.take_succ_cons, balance_cons]
        omega
      rw [closeBrace] at h
      unfold braceStep at hstep
      split at h
      next hopen => exact hstep h (by rw [if_pos hopen])
      next hopen =>
        rw [if_neg hopen] at hstep
        split at h
        next hclose =>
          split at h
          next hzero =>
            cases h
            rw [List.take_zero, balance_nil]
            omega
          next => exact hstep h (by rw [if_pos hclose]; rfl)
        next hclose => exact hstep h (by rw [if_neg hclose, Int.add_zero])

theorem splitTopFrom_balance (depth : Int) (cur f : Field) :
    balance (splitTopFrom depth cur f).flatten = balance cur + balance f := by
  induction f generalizing depth cur with
  | nil =>
      rw [splitTopFrom]
      split
      next hcur =>
        rw [hcur]
        rfl
      next => simp
  | cons t f ih =>
      rw [splitTopFrom]
      split
      next hcomma =>
        have hnone : braceStep (.punct ',') = 0 := by decide
        rw [List.flatten_cons, balance_append, ih, balance_nil, balance_cons,
          hcomma.1, hnone]
      next =>
        rw [ih, balance_append, balance_cons, balance_cons, balance_nil]
        omega

/-- The braces of a row's fields balance. -/
theorem readRows_balance {index skip : Nat} {ts : List Token} {rows : List Row}
    (h : readRows index skip ts = .ok rows) :
    ∀ row ∈ rows, balance row.fields.flatten = 0 := by
  induction ts generalizing index skip rows with
  | nil =>
      cases h
      exact List.forall_mem_nil _
  | cons t ts ih =>
      cases skip with
      | succ skip => exact ih h
      | zero =>
          rw [readRows] at h
          split at h
          next =>
            split at h
            next => cases h
            next e hclose =>
              obtain ⟨others, hothers, rfl⟩ := exists_of_map_ok h
              rw [List.forall_mem_cons]
              refine ⟨?_, ih hothers⟩
              have hdepth := closeBrace_balance hclose
              show balance (splitTop _).flatten = 0
              rw [splitTop, splitTopFrom_balance, balance_nil]
              omega
          next => cases h

end RestifyCapl.Export
