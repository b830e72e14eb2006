/-
Lists split at a separator or joined with one, and read part by part.
-/
import Mathlib.Data.List.Basic
import Mathlib.Data.List.Forall2
import Mathlib.Data.List.TakeWhile

namespace RestifyCapl.Lib

variable {α β ε : Type*}

/-- No separator is left in what lies between the separators. -/
theorem not_mem_of_mem_splitOn [BEq α] [LawfulBEq α] {sep : α}
    {text raw : List α} (h : raw ∈ text.splitOn sep) : sep ∉ raw := by
  induction text generalizing raw with
  | nil =>
      rw [List.splitOn_nil, List.mem_singleton] at h
      rw [h]
      exact List.not_mem_nil
  | cons c text ih =>
      rw [List.splitOn_cons_eq_if_modifyHead] at h
      obtain ⟨first, others, hsplit⟩ :=
        List.exists_cons_of_ne_nil (List.splitOn_ne_nil sep text)
      rw [hsplit] at h ih
      split at h
      next =>
        rcases List.mem_cons.mp h with rfl | h
        · exact List.not_mem_nil
        · exact ih h
      next hne =>
        rw [List.modifyHead_cons] at h
        rcases List.mem_cons.mp h with rfl | h
        · rw [List.mem_cons, not_or]
          refine ⟨fun heq => hne ?_, ih (List.mem_cons_self ..)⟩
          rw [heq]
          exact beq_self_eq_true c
        · exact ih (List.mem_cons_of_mem _ h)

/-- A part has nothing the text does not have. -/
theorem subset_of_mem_splitOn [BEq α] [LawfulBEq α] {sep : α}
    {text raw : List α} (h : raw ∈ text.splitOn sep) : raw ⊆ text := by
  induction text generalizing raw with
  | nil =>
      rw [List.splitOn_nil, List.mem_singleton] at h
      rw [h]
      exact List.Subset.refl []
  | cons c text ih =>
      rw [List.splitOn_cons_eq_if_modifyHead] at h
      obtain ⟨first, others, hsplit⟩ :=
        List.exists_cons_of_ne_nil (List.splitOn_ne_nil sep text)
      rw [hsplit] at h ih
      split at h
      next =>
        rcases List.mem_cons.mp h with rfl | h
        · exact List.nil_subset _
        · exact fun x hx => List.mem_cons_of_mem _ (ih h hx)
      next =>
        rw [List.modifyHead_cons] at h
        rcases List.mem_cons.mp h with rfl | h
        · exact List.cons_subset_cons _ (ih List.mem_cons_self)
        · exact fun x hx =>
            List.mem_cons_of_mem _ (ih (List.mem_cons_of_mem _ h) hx)

/-- The first part, and the parts of what follows its separator. -/
theorem splitOn_eq_takeWhile [BEq α] [LawfulBEq α] (sep : α) (text : List α) :
    text.splitOn sep = text.takeWhile (· != sep)
      :: match text.dropWhile (· != sep) with
        | [] => []
        | _ :: after => after.splitOn sep := by
  have hnot : sep ∉ text.takeWhile (· != sep) := by
    intro hmem
    simpa using List.mem_takeWhile_imp hmem
  have hparts := List.takeWhile_append_dropWhile (p := (· != sep)) (l := text)
  cases hdrop : text.dropWhile (· != sep) with
  | nil =>
      rw [hdrop, List.append_nil] at hparts
      rw [hparts] at hnot ⊢
      exact List.splitOn_eq_singleton hnot
  | cons c after =>
      have hc : c = sep := by
        have hhead := List.head?_dropWhile_not (· != sep) text
        rw [hdrop] at hhead
        simpa using hhead
      rw [hdrop, hc] at hparts
      conv_lhs => rw [← hparts]
      exact List.splitOn_append_cons_self_of_not_mem hnot after

/-- Parts that have separators themselves come apart at these too. -/
theorem splitOn_intercalate_flatMap [BEq α] [LawfulBEq α] (sep : α)
    {parts : List (List α)} (hne : parts ≠ []) :
    ([sep].intercalate parts).splitOn sep = parts.flatMap (·.splitOn sep) := by
  induction parts with
  | nil => exact absurd rfl hne
  | cons part parts ih =>
      cases parts with
      | nil => simp [List.intercalate]
      | cons next parts =>
          have hjoin : [sep].intercalate (part :: next :: parts)
              = part ++ sep :: [sep].intercalate (next :: parts) := by
            simp [List.intercalate]
          rw [hjoin, List.splitOn_append_cons_self, ih (List.cons_ne_nil _ _)]
          rfl

/-- Words with a blank in between are split into these words. -/
theorem filter_splitOnP_intercalate {blank : α → Bool} {sep : α}
    (hsep : blank sep = true) {words : List (List α)}
    (h : ∀ w ∈ words, w ≠ [] ∧ ∀ x ∈ w, blank x = false) :
    (([sep].intercalate words).splitOnP blank).filter (fun w => !w.isEmpty)
      = words := by
  have hword : ∀ {w : List α}, w ≠ [] ∧ (∀ x ∈ w, blank x = false) →
      (w.splitOnP blank).filter (fun w => !w.isEmpty) = [w] := by
    intro w hw
    rw [List.splitOnP_eq_singleton (fun x hx => by simpa using hw.2 x hx),
      List.filter_cons_of_pos, List.filter_nil]
    simpa using hw.1
  induction words with
  | nil => rfl
  | cons w words ih =>
      obtain ⟨hw, hwords⟩ := List.forall_mem_cons.mp h
      cases words with
      | nil =>
          rw [List.intercalate_singleton]
          exact hword hw
      | cons next words =>
          rw [List.intercalate_cons_cons, List.append_assoc,
            List.singleton_append, List.splitOnP_append_cons _ _ hsep,
            List.filter_append, hword hw, ih hwords]
          rfl

/-- Parts that each end in a separator. -/
theorem splitOnP_flatMap {p : α → Bool} {sep : α} (hsep : p sep = true)
    (parts : List (List α)) :
    (parts.flatMap fun part => part ++ [sep]).splitOnP p
      = parts.flatMap (List.splitOnP p) ++ [[]] := by
  induction parts with
  | nil => rfl
  | cons part parts ih =>
      rw [List.flatMap_cons, List.flatMap_cons, List.append_assoc,
        List.singleton_append, List.splitOnP_append_cons _ _ hsep, ih,
        List.append_assoc]

/-- What has no separator goes to the first part. -/
theorem splitOnP_append_of_forall {p : α → Bool} {front : List α}
    (h : ∀ x ∈ front, p x = false) (rest : List α) :
    (front ++ rest).splitOnP p
      = (rest.splitOnP p).modifyHead fun part => front ++ part := by
  obtain ⟨first, others, hsplit⟩ :=
    List.exists_cons_of_ne_nil (List.splitOnP_ne_nil p rest)
  induction front with
  | nil => simp [hsplit]
  | cons c front ih =>
      rw [List.forall_mem_cons] at h
      rw [List.cons_append, List.splitOnP_cons_eq_if_modifyHead, ih h.2, hsplit,
        if_neg (by rw [h.1]; exact Bool.false_ne_true)]
      rfl

/-- `x` does not come right after a separator; `after` says whether the
list does. -/
def NotAfter (p : α → Bool) (x : α) (after : Bool) : List α → Prop
  | [] => True
  | c :: rest => (c = x → after = false) ∧ NotAfter p x (p c) rest

theorem not_head_of_notAfter {p : α → Bool} {x : α} {after : Bool}
    {text : List α} (h : NotAfter p x after text) :
    (∀ part ∈ (text.splitOnP p).tail, part.head? ≠ some x)
      ∧ (after = true → ∀ part ∈ text.splitOnP p, part.head? ≠ some x) := by
  induction text generalizing after with
  | nil => simp
  | cons c rest ih =>
      obtain ⟨hc, hrest⟩ := h
      obtain ⟨htail, hall⟩ := ih hrest
      obtain ⟨first, others, hsplit⟩ :=
        List.exists_cons_of_ne_nil (List.splitOnP_ne_nil p rest)
      rw [List.splitOnP_cons_eq_if_modifyHead]
      by_cases hsep : p c = true
      · rw [if_pos hsep, List.forall_mem_cons]
        exact ⟨hall hsep, fun _ => ⟨nofun, hall hsep⟩⟩
      · rw [hsplit] at htail
        rw [if_neg hsep, hsplit, List.modifyHead_cons, List.forall_mem_cons]
        refine ⟨htail, fun hafter => ⟨fun heq => ?_, htail⟩⟩
        have := hc (Option.some.inj heq)
        rw [hafter] at this
        cases this

/-- What follows without a separator is of the last part. -/
theorem splitOn_append_of_not_mem [BEq α] [LawfulBEq α] {sep : α}
    {more : List α} (hmore : sep ∉ more) (text : List α) :
    ∃ parts last, text.splitOn sep = parts ++ [last]
      ∧ (text ++ more).splitOn sep = parts ++ [last ++ more] := by
  induction text with
  | nil => exact ⟨[], [], by simp, by simp [List.splitOn_eq_singleton hmore]⟩
  | cons c text ih =>
      obtain ⟨parts, last, htext, happend⟩ := ih
      rw [List.cons_append, List.splitOn_cons_eq_if_modifyHead,
        List.splitOn_cons_eq_if_modifyHead, htext, happend]
      split
      next => exact ⟨[] :: parts, last, rfl, rfl⟩
      next =>
        cases parts with
        | nil => exact ⟨[], c :: last, rfl, rfl⟩
        | cons part parts => exact ⟨(c :: part) :: parts, last, rfl, rfl⟩

/-- A joined list up to its first separator is of its first part. -/
theorem takeWhile_intercalate [BEq α] [LawfulBEq α] (sep : α) (part : List α)
    (parts : List (List α)) :
    ([sep].intercalate (part :: parts)).takeWhile (· != sep)
      = part.takeWhile (· != sep) := by
  cases parts with
  | nil => rw [List.intercalate_singleton]
  | cons next parts =>
      rw [List.intercalate_cons_cons, List.append_assoc, List.takeWhile_append]
      split
      next hlen =>
        rw [List.singleton_append, List.takeWhile_cons_of_neg (by simp),
          List.append_nil]
        exact ((List.takeWhile_prefix _).eq_of_length hlen).symm
      next => rfl

/-- What a joined list holds is of a part or of the separator. -/
theorem mem_intercalate {sep : List α} {parts : List (List α)} {x : α}
    (h : x ∈ sep.intercalate parts) : x ∈ sep ∨ ∃ part ∈ parts, x ∈ part := by
  induction parts with
  | nil => cases h
  | cons part parts ih =>
      cases parts with
      | nil =>
          rw [List.intercalate_singleton] at h
          exact Or.inr ⟨part, List.mem_singleton_self _, h⟩
      | cons next parts =>
          rw [List.intercalate_cons_cons, List.append_assoc, List.mem_append,
            List.mem_append] at h
          rcases h with h | h | h
          · exact Or.inr ⟨part, List.mem_cons_self, h⟩
          · exact Or.inl h
          · rcases ih h with hsep | ⟨other, hother, hx⟩
            · exact Or.inl hsep
            · exact Or.inr ⟨other, List.mem_cons_of_mem _ hother, hx⟩

/-- What is joined behind one part is read off the whole. -/
theorem intercalate_cons_inj {sep : α} {part : List α}
    {xs ys : List (List α)}
    (h : [sep].intercalate (part :: xs) = [sep].intercalate (part :: ys)) :
    [sep].intercalate xs = [sep].intercalate ys ∧ (xs = [] ↔ ys = []) := by
  have hlong : ∀ next (parts : List (List α)),
      [sep].intercalate (part :: next :: parts) ≠ part := by
    intro next parts heq
    have hlen := congrArg List.length heq
    rw [List.intercalate_cons_cons, List.length_append, List.length_append,
      List.length_singleton] at hlen
    omega
  cases xs with
  | nil =>
      cases ys with
      | nil => exact ⟨rfl, Iff.rfl⟩
      | cons y ys =>
          rw [List.intercalate_singleton] at h
          exact absurd h.symm (hlong y ys)
  | cons x xs =>
      cases ys with
      | nil =>
          rw [List.intercalate_singleton] at h
          exact absurd h (hlong x xs)
      | cons y ys =>
          rw [List.intercalate_cons_cons, List.intercalate_cons_cons] at h
          exact ⟨List.append_cancel_left h, by simp⟩

/-- Of elements whose texts hold no separator, and that are known by the
start of a text, the joined texts tell the elements. -/
theorem eq_of_map_intercalate [BEq α] [LawfulBEq α] {sep : α} {f : β → List α}
    {xs ys : List β} (hne : ∀ x, f x ≠ [])
    (hsep : ∀ y ∈ ys, sep ∉ f y)
    (hstart : ∀ y ∈ ys, ∀ x, (f x).takeWhile (· != sep) = f y → x = y)
    (h : [sep].intercalate (xs.map f) = [sep].intercalate (ys.map f)) :
    xs = ys := by
  induction ys generalizing xs with
  | nil =>
      cases xs with
      | nil => rfl
      | cons x xs =>
          cases xs with
          | nil => exact absurd (by simpa using h) (hne x)
          | cons x' xs => simp [List.intercalate_cons_cons] at h
  | cons y ys ih =>
      cases xs with
      | nil =>
          cases ys with
          | nil => exact absurd (by simpa using h.symm) (hne y)
          | cons y' ys => simp [List.intercalate_cons_cons] at h
      | cons x xs =>
          have hfirst := congrArg (List.takeWhile (· != sep)) h
          rw [List.map_cons, List.map_cons, takeWhile_intercalate,
            takeWhile_intercalate] at hfirst
          have hown : (f y).takeWhile (· != sep) = f y := by
            rw [List.takeWhile_eq_self_iff]
            intro c hc
            rw [bne_iff_ne]
            rintro rfl
            exact hsep y (List.mem_cons_self ..) hc
          have hxy := hstart y (List.mem_cons_self ..) x (hfirst.trans hown)
          rw [hxy] at h ⊢
          have htail := (intercalate_cons_inj h).1
          rw [ih (fun z hz => hsep z (List.mem_cons_of_mem _ hz))
            (fun z hz => hstart z (List.mem_cons_of_mem _ hz)) htail]

/-- Where every element is kept, `filterMap` is `map`. -/
theorem map_some_filterMap {f : α → Option β} {xs : List α}
    (h : ∀ x ∈ xs, (f x).isSome = true) : (xs.filterMap f).map some = xs.map f := by
  induction xs with
  | nil => rfl
  | cons x xs ih =>
      rw [List.forall_mem_cons] at h
      obtain ⟨y, hy⟩ := Option.isSome_iff_exists.mp h.1
      rw [List.filterMap_cons_some hy, List.map_cons, List.map_cons, hy, ih h.2]

theorem exists_of_map_ok {f : α → β} {x : Except ε α} {y : β}
    (h : x.map f = .ok y) : ∃ a, x = .ok a ∧ f a = y := by
  cases x with
  | error e => cases h
  | ok a => exact ⟨a, rfl, Except.ok.inj h⟩

/-- What came out of two steps came out of each. -/
theorem exists_of_bind_ok {α β : Type} {x : Except ε α}
    {f : α → Except ε β} {y : β}
    (h : (x >>= f) = .ok y) : ∃ a, x = .ok a ∧ f a = .ok y := by
  cases x with
  | error e => cases h
  | ok a => exact ⟨a, rfl, h⟩

/-- What was read of a list was read of one of its elements. -/
theorem mem_of_mapM_ok {f : α → Except ε β} {xs : List α} {ys : List β}
    (h : xs.mapM f = .ok ys) {y : β} (hy : y ∈ ys) : ∃ x ∈ xs, f x = .ok y := by
  induction xs generalizing ys with
  | nil =>
      cases h
      cases hy
  | cons x xs ih =>
      rw [List.mapM_cons] at h
      cases hx : f x with
      | error e =>
          rw [hx] at h
          cases h
      | ok z =>
          cases hxs : xs.mapM f with
          | error e =>
              rw [hx, hxs] at h
              cases h
          | ok zs =>
              rw [hx, hxs] at h
              cases h
              rcases List.mem_cons.mp hy with rfl | hmem
              · exact ⟨x, List.mem_cons_self, hx⟩
              · obtain ⟨x', hx', hread⟩ := ih hxs hmem
                exact ⟨x', List.mem_cons_of_mem _ hx', hread⟩

/-- What is observed of all that was read, as it is of each. -/
theorem map_of_mapM_ok {γ : Type*} {f : α → Except ε β} {observe : β → γ}
    {expected : α → γ} {xs : List α} {ys : List β}
    (heach : ∀ x ∈ xs, ∀ y, f x = .ok y → observe y = expected x)
    (h : xs.mapM f = .ok ys) : ys.map observe = xs.map expected := by
  induction xs generalizing ys with
  | nil =>
      cases h
      rfl
  | cons x xs ih =>
      rw [List.forall_mem_cons] at heach
      rw [List.mapM_cons] at h
      cases hx : f x with
      | error e =>
          rw [hx] at h
          cases h
      | ok y =>
          cases hxs : xs.mapM f with
          | error e =>
              rw [hx, hxs] at h
              cases h
          | ok rest =>
              rw [hx, hxs] at h
              cases h
              rw [List.map_cons, List.map_cons, heach.1 y hx, ih heach.2 hxs]

/-- A list that could not be read has an element that could not. -/
theorem exists_of_mapM_error {f : α → Except ε β} {xs : List α} {e : ε}
    (h : xs.mapM f = .error e) : ∃ x ∈ xs, f x = .error e := by
  induction xs with
  | nil => cases h
  | cons x xs ih =>
      rw [List.mapM_cons] at h
      cases hx : f x with
      | error e' =>
          rw [hx] at h
          cases h
          exact ⟨x, List.mem_cons_self, hx⟩
      | ok y =>
          rw [hx] at h
          cases hxs : xs.mapM f with
          | error e' =>
              rw [hxs] at h
              cases h
              obtain ⟨x', hmem, hx'⟩ := ih hxs
              exact ⟨x', List.mem_cons_of_mem _ hmem, hx'⟩
          | ok ys =>
              rw [hxs] at h
              cases h

/-- An element of a list has a partner in a list paired with it. -/
theorem exists_of_forall₂ {R : α → β → Prop} {xs : List α} {ys : List β}
    (h : List.Forall₂ R xs ys) {x : α} (hx : x ∈ xs) : ∃ y ∈ ys, R x y := by
  induction h with
  | nil => cases hx
  | cons hR _ ih =>
      rcases List.mem_cons.mp hx with rfl | hx
      · exact ⟨_, List.mem_cons_self, hR⟩
      · obtain ⟨y, hy, hxy⟩ := ih hx
        exact ⟨y, List.mem_cons_of_mem _ hy, hxy⟩

/-- Partners of all the elements, in their order. -/
theorem exists_forall₂ {R : α → β → Prop} {xs : List α}
    (h : ∀ x ∈ xs, ∃ y, R x y) : ∃ ys, List.Forall₂ R xs ys := by
  induction xs with
  | nil => exact ⟨[], .nil⟩
  | cons x xs ih =>
      rw [List.forall_mem_cons] at h
      obtain ⟨y, hy⟩ := h.1
      obtain ⟨ys, hys⟩ := ih h.2
      exact ⟨y :: ys, .cons hy hys⟩

theorem map_eq_map_of_forall₂ {γ : Type*} {R : α → β → Prop} {f : α → γ} {g : β → γ}
    {xs : List α} {ys : List β} (h : List.Forall₂ R xs ys)
    (heq : ∀ x y, R x y → f x = g y) : xs.map f = ys.map g := by
  induction h with
  | nil => rfl
  | cons hxy _ ih => rw [List.map_cons, List.map_cons, heq _ _ hxy, ih]

theorem forall₂_of_map_eq_map {γ : Type*} {f : α → γ} {g : β → γ}
    {xs : List α} {ys : List β} (h : xs.map f = ys.map g) :
    List.Forall₂ (fun x y => f x = g y) xs ys := by
  rw [← List.forall₂_eq_eq_eq, List.forall₂_map_left_iff,
    List.forall₂_map_right_iff] at h
  exact h

end RestifyCapl.Lib
