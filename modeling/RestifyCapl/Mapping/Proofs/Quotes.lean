/-
The conversion, byte run by byte run (`Converts`), and what follows for
any text at all, malformed or cut short. On its own output the scanner
takes the same steps, with the double-quoted state where it was in the
apostrophe state (`Converts.fixed`); it changes nothing exactly where no
apostrophe stands outside a double-quoted string
(`convertFrom_eq_self_iff`).
-/
import RestifyCapl.Mapping.JsonQuotes

namespace RestifyCapl

/-- The scanner, one constructor for each thing it can find. -/
inductive Converts : Scan → Bytes → Bytes → Prop
  | done (state : Scan) : Converts state [] []
  | outsideApostrophe {rest out : Bytes} :
      Converts .apostrophe rest out →
      Converts .outside (ch '\'' :: rest) (ch '"' :: out)
  | outsideQuote {rest out : Bytes} :
      Converts .doubleQuoted rest out →
      Converts .outside (ch '"' :: rest) (ch '"' :: out)
  | outsidePlain {c : UInt8} {rest out : Bytes} :
      c ≠ ch '\'' → c ≠ ch '"' → Converts .outside rest out →
      Converts .outside (c :: rest) (c :: out)
  | doubleEscape {next : UInt8} {rest out : Bytes} :
      Converts .doubleQuoted rest out →
      Converts .doubleQuoted (ch '\\' :: next :: rest)
        (ch '\\' :: next :: out)
  | doubleBackslash : Converts .doubleQuoted [ch '\\'] [ch '\\']
  | doubleQuote {rest out : Bytes} :
      Converts .outside rest out →
      Converts .doubleQuoted (ch '"' :: rest) (ch '"' :: out)
  | doublePlain {c : UInt8} {rest out : Bytes} :
      c ≠ ch '\\' → c ≠ ch '"' → Converts .doubleQuoted rest out →
      Converts .doubleQuoted (c :: rest) (c :: out)
  | escapedApostrophe {rest out : Bytes} :
      Converts .apostrophe rest out →
      Converts .apostrophe (ch '\\' :: ch '\'' :: rest) (ch '\'' :: out)
  | apostropheEscape {next : UInt8} {rest out : Bytes} :
      next ≠ ch '\'' → Converts .apostrophe rest out →
      Converts .apostrophe (ch '\\' :: next :: rest) (ch '\\' :: next :: out)
  | apostropheBackslash : Converts .apostrophe [ch '\\'] [ch '\\']
  | apostropheClose {rest out : Bytes} :
      Converts .outside rest out →
      Converts .apostrophe (ch '\'' :: rest) (ch '"' :: out)
  | rawQuote {rest out : Bytes} :
      Converts .apostrophe rest out →
      Converts .apostrophe (ch '"' :: rest) (ch '\\' :: ch '"' :: out)
  | apostrophePlain {c : UInt8} {rest out : Bytes} :
      c ≠ ch '\\' → c ≠ ch '\'' → c ≠ ch '"' →
      Converts .apostrophe rest out →
      Converts .apostrophe (c :: rest) (c :: out)

-- ============================================================ the equations

@[simp] theorem convertFrom_nil (state : Scan) : convertFrom state [] = [] := by
  cases state <;> rfl

theorem convertFrom_outsideApostrophe (rest : Bytes) :
    convertFrom .outside (ch '\'' :: rest)
      = ch '"' :: convertFrom .apostrophe rest := by
  show (if ch '\'' = ch '\'' then _ else _) = _
  rw [if_pos rfl]

theorem convertFrom_outsideQuote (rest : Bytes) :
    convertFrom .outside (ch '"' :: rest)
      = ch '"' :: convertFrom .doubleQuoted rest := by
  show (if ch '"' = ch '\'' then _ else if ch '"' = ch '"' then _ else _) = _
  rw [if_neg (by decide), if_pos rfl]

theorem convertFrom_outsidePlain {c : UInt8} (ha : c ≠ ch '\'')
    (hq : c ≠ ch '"') (rest : Bytes) :
    convertFrom .outside (c :: rest) = c :: convertFrom .outside rest := by
  show (if c = ch '\'' then _ else if c = ch '"' then _ else _) = _
  rw [if_neg ha, if_neg hq]

theorem convertFrom_doubleEscape (next : UInt8) (rest : Bytes) :
    convertFrom .doubleQuoted (ch '\\' :: next :: rest)
      = ch '\\' :: next :: convertFrom .doubleQuoted rest := by
  show (if ch '\\' = ch '\\' then _ else _) = _
  rw [if_pos rfl]

theorem convertFrom_doubleQuote (rest : Bytes) :
    convertFrom .doubleQuoted (ch '"' :: rest)
      = ch '"' :: convertFrom .outside rest := by
  cases rest with
  | nil => rfl
  | cons next rest =>
      show (if ch '"' = ch '\\' then _ else if ch '"' = ch '"' then _ else _)
        = _
      rw [if_neg (by decide), if_pos rfl]

theorem convertFrom_doublePlain {c : UInt8} (hb : c ≠ ch '\\')
    (hq : c ≠ ch '"') (rest : Bytes) :
    convertFrom .doubleQuoted (c :: rest)
      = c :: convertFrom .doubleQuoted rest := by
  cases rest with
  | nil => rfl
  | cons next rest =>
      show (if c = ch '\\' then _ else if c = ch '"' then _ else _) = _
      rw [if_neg hb, if_neg hq]

theorem convertFrom_escapedApostrophe (rest : Bytes) :
    convertFrom .apostrophe (ch '\\' :: ch '\'' :: rest)
      = ch '\'' :: convertFrom .apostrophe rest := by
  show (if ch '\\' = ch '\\' then if ch '\'' = ch '\'' then _ else _ else _) = _
  rw [if_pos rfl, if_pos rfl]

theorem convertFrom_apostropheEscape {next : UInt8} (hn : next ≠ ch '\'')
    (rest : Bytes) :
    convertFrom .apostrophe (ch '\\' :: next :: rest)
      = ch '\\' :: next :: convertFrom .apostrophe rest := by
  show (if ch '\\' = ch '\\' then if next = ch '\'' then _ else _ else _) = _
  rw [if_pos rfl, if_neg hn]

theorem convertFrom_apostropheClose (rest : Bytes) :
    convertFrom .apostrophe (ch '\'' :: rest)
      = ch '"' :: convertFrom .outside rest := by
  cases rest with
  | nil => rfl
  | cons next rest =>
      show (if ch '\'' = ch '\\' then _
        else if ch '\'' = ch '\'' then _ else _) = _
      rw [if_neg (by decide), if_pos rfl]

theorem convertFrom_rawQuote (rest : Bytes) :
    convertFrom .apostrophe (ch '"' :: rest)
      = ch '\\' :: ch '"' :: convertFrom .apostrophe rest := by
  cases rest with
  | nil => rfl
  | cons next rest =>
      show (if ch '"' = ch '\\' then _ else if ch '"' = ch '\'' then _
        else if ch '"' = ch '"' then _ else _) = _
      rw [if_neg (by decide), if_neg (by decide), if_pos rfl]

theorem convertFrom_apostrophePlain {c : UInt8} (hb : c ≠ ch '\\')
    (ha : c ≠ ch '\'') (hq : c ≠ ch '"') (rest : Bytes) :
    convertFrom .apostrophe (c :: rest)
      = c :: convertFrom .apostrophe rest := by
  cases rest with
  | nil =>
      show (if c = ch '\'' then _ else if c = ch '"' then _ else _) = _
      rw [if_neg ha, if_neg hq, convertFrom_nil]
  | cons next rest =>
      show (if c = ch '\\' then _ else if c = ch '\'' then _
        else if c = ch '"' then _ else _) = _
      rw [if_neg hb, if_neg ha, if_neg hq]

-- ============================================================= the relation

/-- The relation is the function. -/
theorem Converts.eq {state : Scan} {text out : Bytes}
    (h : Converts state text out) : convertFrom state text = out := by
  induction h with
  | done state => exact convertFrom_nil state
  | outsideApostrophe _ ih => rw [convertFrom_outsideApostrophe, ih]
  | outsideQuote _ ih => rw [convertFrom_outsideQuote, ih]
  | outsidePlain ha hq _ ih => rw [convertFrom_outsidePlain ha hq, ih]
  | doubleEscape _ ih => rw [convertFrom_doubleEscape, ih]
  | doubleBackslash => rfl
  | doubleQuote _ ih => rw [convertFrom_doubleQuote, ih]
  | doublePlain hb hq _ ih => rw [convertFrom_doublePlain hb hq, ih]
  | escapedApostrophe _ ih => rw [convertFrom_escapedApostrophe, ih]
  | apostropheEscape hn _ ih => rw [convertFrom_apostropheEscape hn, ih]
  | apostropheBackslash => rfl
  | apostropheClose _ ih => rw [convertFrom_apostropheClose, ih]
  | rawQuote _ ih => rw [convertFrom_rawQuote, ih]
  | apostrophePlain hb ha hq _ ih =>
      rw [convertFrom_apostrophePlain hb ha hq, ih]

/-- Every text is scanned to its end. -/
theorem converts (state : Scan) (text : Bytes) :
    ∃ out, Converts state text out := by
  induction hn : text.length using Nat.strong_induction_on
      generalizing state text with
  | _ n ih =>
      subst hn
      cases text with
      | nil => exact ⟨[], .done state⟩
      | cons c rest =>
          have hrest : ∀ state, ∃ out, Converts state rest out :=
            fun state => ih _ (Nat.lt_succ_self _) state rest rfl
          cases state with
          | outside =>
              by_cases ha : c = ch '\''
              · subst ha
                exact (hrest .apostrophe).imp' _ fun _ => .outsideApostrophe
              · by_cases hq : c = ch '"'
                · subst hq
                  exact (hrest .doubleQuoted).imp' _ fun _ => .outsideQuote
                · exact (hrest .outside).imp' _ fun _ => .outsidePlain ha hq
          | doubleQuoted =>
              by_cases hb : c = ch '\\'
              · subst hb
                cases rest with
                | nil => exact ⟨_, .doubleBackslash⟩
                | cons next rest =>
                    obtain ⟨out, h⟩ := ih rest.length
                      (by rw [List.length_cons, List.length_cons]; omega)
                      .doubleQuoted rest rfl
                    exact ⟨_, .doubleEscape h⟩
              · by_cases hq : c = ch '"'
                · subst hq
                  exact (hrest .outside).imp' _ fun _ => .doubleQuote
                · exact (hrest .doubleQuoted).imp' _ fun _ =>
                    .doublePlain hb hq
          | apostrophe =>
              by_cases hb : c = ch '\\'
              · subst hb
                cases rest with
                | nil => exact ⟨_, .apostropheBackslash⟩
                | cons next rest =>
                    obtain ⟨out, h⟩ := ih rest.length
                      (by rw [List.length_cons, List.length_cons]; omega)
                      .apostrophe rest rfl
                    by_cases hn : next = ch '\''
                    · subst hn
                      exact ⟨_, .escapedApostrophe h⟩
                    · exact ⟨_, .apostropheEscape hn h⟩
              · by_cases ha : c = ch '\''
                · subst ha
                  exact (hrest .outside).imp' _ fun _ => .apostropheClose
                · by_cases hq : c = ch '"'
                  · subst hq
                    exact (hrest .apostrophe).imp' _ fun _ => .rawQuote
                  · exact (hrest .apostrophe).imp' _ fun _ =>
                      .apostrophePlain hb ha hq

theorem converts_convertFrom (state : Scan) (text : Bytes) :
    Converts state text (convertFrom state text) := by
  obtain ⟨out, h⟩ := converts state text
  rw [h.eq]
  exact h

-- ============================================================== idempotence

/-- The state in which the output is read where the input was read in
`state`. -/
def Scan.output : Scan → Scan
  | .outside => .outside
  | .doubleQuoted => .doubleQuoted
  | .apostrophe => .doubleQuoted

/-- The output is left as it is. -/
theorem Converts.fixed {state : Scan} {text out : Bytes}
    (h : Converts state text out) : Converts state.output out out := by
  induction h with
  | done state => exact .done _
  | outsideApostrophe _ ih => exact .outsideQuote ih
  | outsideQuote _ ih => exact .outsideQuote ih
  | outsidePlain ha hq _ ih => exact .outsidePlain ha hq ih
  | doubleEscape _ ih => exact .doubleEscape ih
  | doubleBackslash => exact .doubleBackslash
  | doubleQuote _ ih => exact .doubleQuote ih
  | doublePlain hb hq _ ih => exact .doublePlain hb hq ih
  | escapedApostrophe _ ih => exact .doublePlain (by decide) (by decide) ih
  | apostropheEscape _ _ ih => exact .doubleEscape ih
  | apostropheBackslash => exact .doubleBackslash
  | apostropheClose _ ih => exact .doubleQuote ih
  | rawQuote _ ih => exact .doubleEscape ih
  | apostrophePlain hb _ hq _ ih => exact .doublePlain hb hq ih

theorem convertFrom_idem (text : Bytes) :
    convertFrom .outside (convertFrom .outside text)
      = convertFrom .outside text :=
  (converts_convertFrom .outside text).fixed.eq

-- ================================================================= identity

/-- Whether an apostrophe stands outside the double-quoted strings of a
text; the flag is set inside such a string, where a backslash escapes. -/
def apostropheOutside : Bool → Bytes → Bool
  | _, [] => false
  | false, c :: rest => c == ch '\'' || apostropheOutside (c == ch '"') rest
  | true, [_] => false
  | true, c :: next :: rest =>
      if c = ch '\\' then apostropheOutside true rest
      else apostropheOutside (c != ch '"') (next :: rest)

theorem apostropheOutside_outside (c : UInt8) (rest : Bytes) :
    apostropheOutside false (c :: rest)
      = (c == ch '\'' || apostropheOutside (c == ch '"') rest) := rfl

theorem apostropheOutside_escape (next : UInt8) (rest : Bytes) :
    apostropheOutside true (ch '\\' :: next :: rest)
      = apostropheOutside true rest := by
  show (if ch '\\' = ch '\\' then _ else _) = _
  rw [if_pos rfl]

theorem apostropheOutside_inside {c : UInt8} (hb : c ≠ ch '\\')
    (rest : Bytes) :
    apostropheOutside true (c :: rest)
      = apostropheOutside (c != ch '"') rest := by
  cases rest with
  | nil => cases hq : c != ch '"' <;> rfl
  | cons next rest =>
      show (if c = ch '\\' then _ else _) = _
      rw [if_neg hb]

/-- The flag of a state in which no apostrophe string is open. -/
def Scan.inside : Scan → Bool
  | .doubleQuoted => true
  | _ => false

theorem Converts.eq_self_iff {state : Scan} {text out : Bytes}
    (h : Converts state text out) (hstate : state ≠ .apostrophe) :
    out = text ↔ apostropheOutside state.inside text = false := by
  induction h with
  | done state => cases state <;> exact ⟨fun _ => rfl, fun _ => rfl⟩
  | outsideApostrophe =>
      constructor
      · intro h
        injection h with h
        exact absurd h (by decide)
      · intro h
        have h : apostropheOutside false (ch '\'' :: _) = false := h
        rw [apostropheOutside_outside] at h
        simp at h
  | outsideQuote _ ih =>
      rw [List.cons_inj_right, ih (by decide)]
      show _ ↔ apostropheOutside false _ = false
      rw [apostropheOutside_outside]
      rfl
  | outsidePlain ha hq _ ih =>
      rw [List.cons_inj_right, ih (by decide)]
      show _ ↔ apostropheOutside false _ = false
      rw [apostropheOutside_outside, beq_false_of_ne ha, beq_false_of_ne hq,
        Bool.false_or]
      rfl
  | doubleEscape _ ih =>
      rw [List.cons_inj_right, List.cons_inj_right, ih (by decide)]
      show _ ↔ apostropheOutside true _ = false
      rw [apostropheOutside_escape]
      rfl
  | doubleBackslash => exact ⟨fun _ => rfl, fun _ => rfl⟩
  | doubleQuote _ ih =>
      rw [List.cons_inj_right, ih (by decide)]
      show _ ↔ apostropheOutside true _ = false
      rw [apostropheOutside_inside (by decide)]
      rfl
  | doublePlain hb hq _ ih =>
      rw [List.cons_inj_right, ih (by decide)]
      show _ ↔ apostropheOutside true _ = false
      rw [apostropheOutside_inside hb, bne_iff_ne.mpr hq]
      rfl
  | _ => exact absurd rfl hstate

/-- The conversion changes a text exactly where an apostrophe stands
outside its double-quoted strings. -/
theorem convertFrom_eq_self_iff (text : Bytes) :
    convertFrom .outside text = text
      ↔ apostropheOutside false text = false :=
  (converts_convertFrom .outside text).eq_self_iff (by decide)

theorem apostropheOutside_of_not_mem (inside : Bool) {text : Bytes}
    (h : ch '\'' ∉ text) : apostropheOutside inside text = false := by
  induction inside, text using apostropheOutside.induct with
  | case1 inside => cases inside <;> rfl
  | case2 c rest ih =>
      rw [List.mem_cons, not_or] at h
      rw [apostropheOutside_outside, ih h.2, Bool.or_false]
      exact beq_false_of_ne fun heq => h.1 heq.symm
  | case3 => rfl
  | case4 next rest ih =>
      rw [apostropheOutside_escape]
      apply ih
      exact fun hmem => h
        (List.mem_cons_of_mem _ (List.mem_cons_of_mem _ hmem))
  | case5 c next rest hb ih =>
      rw [apostropheOutside_inside hb]
      exact ih fun hmem => h (List.mem_cons_of_mem _ hmem)

-- ================================================================== lengths

/-- Every byte becomes at most two. -/
theorem Converts.length_le {state : Scan} {text out : Bytes}
    (h : Converts state text out) : out.length ≤ 2 * text.length := by
  induction h with
  | done => exact Nat.le_refl 0
  | doubleBackslash => decide
  | apostropheBackslash => decide
  | _ =>
      simp only [List.length_cons] at *
      omega

/-- No byte comes from nothing but the two quote characters and the
backslash. -/
theorem Converts.mem {state : Scan} {text out : Bytes} {c : UInt8}
    (h : Converts state text out) (hc : c ∈ out)
    (hquote : c ≠ ch '"') (happ : c ≠ ch '\'') (hback : c ≠ ch '\\') :
    c ∈ text := by
  induction h with
  | done => exact hc
  | doubleBackslash => exact hc
  | apostropheBackslash => exact hc
  | _ =>
      simp only [List.mem_cons] at *
      grind

end RestifyCapl
