/-
The pull-request data file is read back. Whatever GitHub answers for the
numbers the release bot asks for, `fetch-pr-releases.sh` writes a file
that `Read-PrReleases` accepts, unless `ConvertFrom-Json` takes a text in
it for a date, and then every number has what GitHub said last
(`pr_releases_read_back`).

Base layer: the loop of the scripts sets one member a line
(`fetchLoop_answered`), and a file is read value by value
(`readPrObject_values`).
-/
import RestifyCapl.Ci.PrData
import RestifyCapl.Ci.Proofs.Published

namespace RestifyCapl.Ci

open Lib

-- =================================================================== the loop

/-- The numbers of the lines that have one, each with what there is for
it. -/
def numbered {α β : Type} (line : α → Text) (asked : List α)
    (values : List β) : List (Text × β) :=
  ((asked.map fun a => readLine (line a)).zip values).filter fun m =>
    !m.1.isEmpty

/-- What the last line with a number gives for it. -/
def lastOf {β : Type} (given : List (Text × β)) (n : Text) : Option β :=
  (given.filter fun m => m.1 == n).getLast?.map Prod.snd

theorem lookup_file {β : Type} {given : List (Text × β)} {n : Text} :
    (setAll [] given).lookup n = lastOf given n := by
  rw [lookup_setAll, List.lookup_nil, Option.or_none]
  rfl

/-- The members of a file are what is last for each number. -/
theorem mem_file {β : Type} {given : List (Text × β)} {P : β → Prop} :
    (∀ m ∈ setAll [] given, P m.2)
      ↔ ∀ n s, lastOf given n = some s → P s := by
  have hnodup : ((setAll [] given).map Prod.fst).Nodup :=
    nodup_setAll List.nodup_nil
  constructor
  · intro h n s hs
    rw [← lookup_file, ← mem_iff_lookup hnodup] at hs
    exact h _ hs
  · intro h m hm
    apply h m.1
    rw [← lookup_file]
    exact (mem_iff_lookup hnodup).mp hm

theorem state_of_lastOf {α β : Type} {line : α → Text} {asked : List α}
    {states : List β} {n : Text} {s : β}
    (h : lastOf (numbered line asked states) n = some s) :
    s ∈ states := by
  unfold lastOf numbered at h
  obtain ⟨m, hm, rfl⟩ := Option.map_eq_some_iff.mp h
  have hzip := List.mem_of_mem_filter
    (List.mem_of_mem_filter (List.mem_of_getLast? hm))
  exact (List.of_mem_zip hzip).2

theorem fetchLoop_answered {α β γ : Type} {line : α → Text}
    {fetch : Text → α → Except FetchStop β} {value : γ → β} {asked : List α}
    {states : List γ}
    (h : List.Forall₂ (fun a s => readLine (line a) ≠ [] →
      ∀ n, fetch n a = .ok (value s)) asked states)
    (file : List (Text × γ)) :
    fetchLoop line fetch (file.map fun m => (m.1, value m.2)) asked
      = .ok ((setAll file (numbered line asked states)).map
        fun m => (m.1, value m.2)) := by
  induction h generalizing file with
  | nil => rfl
  | @cons a s asked states ha _ ih =>
      unfold fetchLoop numbered
      dsimp only
      rw [List.map_cons, List.zip_cons_cons, List.filter_cons]
      by_cases hblank : readLine (line a) = []
      · rw [if_pos hblank, if_neg (by simp [hblank])]
        exact ih file
      · rw [if_neg hblank, ha hblank, if_pos (by simp [hblank])]
        dsimp only
        rw [map_setMember]
        exact ih _

-- ================================================================== the lines

/-- The numbers of some lines. -/
def numbersOf {α : Type} (line : α → Text) (asked : List α) : List Text :=
  (asked.map fun a => readLine (line a)).filter fun n => !n.isEmpty

theorem lastOf_map {β : Type} (held : Text → β) (numbers : List Text)
    (n : Text) :
    lastOf (numbers.map fun m => (m, held m)) n
      = if n ∈ numbers then some (held n) else none := by
  unfold lastOf
  cases hlast : ((numbers.map fun m => (m, held m)).filter
      fun m => m.1 == n).getLast? with
  | none =>
      rw [List.getLast?_eq_none_iff, List.filter_eq_nil_iff] at hlast
      rw [if_neg]
      · rfl
      · intro hn
        exact hlast _ (List.mem_map_of_mem (f := fun m => (m, held m)) hn)
          BEq.rfl
  | some m =>
      obtain ⟨hm, hkey⟩ := List.mem_filter.mp (List.mem_of_getLast? hlast)
      obtain ⟨n', hn', rfl⟩ := List.mem_map.mp hm
      rw [← eq_of_beq hkey, if_pos hn']
      rfl

/-- Where one thing is held for each number, the file has it for the numbers
that were asked for. -/
theorem lastOf_held {α β : Type} {line : α → Text} {asked : List α}
    (held : Text → β) (n : Text) :
    lastOf (numbered line asked (asked.map fun a => held (readLine (line a)))) n
      = if n ∈ numbersOf line asked then some (held n) else none := by
  rw [← lastOf_map]
  congr 1
  unfold numbered numbersOf
  induction asked with
  | nil => rfl
  | cons a asked ih =>
      rw [List.map_cons, List.map_cons, List.zip_cons_cons, List.filter_cons,
        List.filter_cons, ih]
      split <;> rfl

theorem readLine_number {n : Text} (h : ∀ c ∈ n, isAsciiDigit c = true) :
    readLine n = n := by
  have hblank : ∀ c ∈ n, (c == ' ' || c == '\t') = false := by
    intro c hc
    have hdigit := h c hc
    rw [Bool.or_eq_false_iff, beq_eq_false_iff_ne, beq_eq_false_iff_ne]
    constructor
    · rintro rfl
      exact absurd hdigit (by decide)
    · rintro rfl
      exact absurd hdigit (by decide)
  unfold readLine
  dsimp only
  have hfirst : n.dropWhile (fun c => c == ' ' || c == '\t') = n := by
    rw [List.dropWhile_eq_self_iff]
    intro hlen
    rw [hblank _ (List.getElem_mem hlen)]
    exact Bool.false_ne_true
  rw [hfirst, List.rdropWhile_eq_self_iff]
  intro hne
  rw [hblank _ (List.getLast_mem hne)]
  exact Bool.false_ne_true

/-- A number, as a run prints it. -/
def IsPrinted (n : Text) : Prop := n ≠ [] ∧ ∀ c ∈ n, isAsciiDigit c = true

/-- The members of a file of what is held for each number. -/
def heldFile {α β : Type} (line : α → Text) (asked : List α)
    (held : Text → β) : List (Text × β) :=
  setAll [] (numbered line asked (asked.map fun a => held (readLine (line a))))

section Held

variable {α β : Type} (line : α → Text) (asked : List α) (held : Text → β)

theorem lookup_held (n : Text) :
    (heldFile line asked held).lookup n
      = if n ∈ numbersOf line asked then some (held n) else none := by
  unfold heldFile
  rw [lookup_file, lastOf_held]

theorem mem_held (P : β → Prop) :
    (∀ m ∈ heldFile line asked held, P m.2)
      ↔ ∀ n ∈ numbersOf line asked, P (held n) := by
  unfold heldFile
  rw [mem_file]
  constructor
  · intro h n hn
    apply h n
    rw [lastOf_held, if_pos hn]
  · intro h n s hs
    rw [lastOf_held] at hs
    split at hs
    next hn =>
      cases hs
      exact h n hn
    next => cases hs

theorem fetchLoop_held {γ : Type} (fetch : Text → α → Except FetchStop γ)
    (value : β → γ)
    (h : ∀ a ∈ asked, readLine (line a) ≠ [] →
      ∀ n, fetch n a = .ok (value (held (readLine (line a))))) :
    fetchLoop line fetch [] asked
      = .ok ((heldFile line asked held).map fun m => (m.1, value m.2)) := by
  apply fetchLoop_answered _ []
  rw [List.forall₂_map_right_iff, List.forall₂_same]
  exact h

end Held

/-- The lines a run printed are the numbers asked for. -/
theorem numbersOf_hereLines {α : Type} {line : α → Text} {asked : List α}
    {stdout : List Text} (hasked : asked.map line = hereLines stdout)
    (hnumbers : ∀ n ∈ stdout, IsPrinted n) :
    numbersOf line asked = stdout := by
  have hmap : numbersOf line asked
      = ((hereLines stdout).map readLine).filter fun n => !n.isEmpty := by
    unfold numbersOf
    rw [← hasked, List.map_map]
    rfl
  rw [hmap]
  by_cases hempty : stdout = []
  · rw [hempty]
    rfl
  · unfold hereLines
    have hline : ∀ l ∈ stdout, '\n' ∉ l := fun l hl hmem =>
      absurd ((hnumbers l hl).2 _ hmem) (by decide)
    have hread : stdout.map readLine = stdout := by
      rw [List.map_congr_left fun n hn => readLine_number (hnumbers n hn).2]
      exact List.map_id _
    rw [lines_joinLines hempty, flatMap_lines hline, hread, List.filter_eq_self]
    intro n hn
    rw [Bool.not_eq_true', List.isEmpty_eq_false_iff]
    exact (hnumbers n hn).1

-- =================================================================== the file

theorem mapM_of_forall_ok {ε α β : Type} {f : α → Except ε β} {g : α → β}
    {xs : List α} (h : ∀ x ∈ xs, f x = .ok (g x)) :
    xs.mapM f = .ok (xs.map g) := by
  induction xs with
  | nil => rfl
  | cons x xs ih =>
      rw [List.forall_mem_cons] at h
      rw [List.mapM_cons, h.1, ih h.2]
      rfl

theorem forall_ok_of_mapM {ε α β : Type} {f : α → Except ε β} {xs : List α}
    {ys : List β} (h : xs.mapM f = .ok ys) {x : α} (hx : x ∈ xs) :
    ∃ y, f x = .ok y := by
  induction xs generalizing ys with
  | nil => cases hx
  | cons x' xs ih =>
      rw [List.mapM_cons] at h
      obtain ⟨y, hy, h⟩ := exists_of_bind_ok h
      obtain ⟨ys', hys, -⟩ := exists_of_bind_ok h
      rcases List.mem_cons.mp hx with rfl | hx
      · exact ⟨y, hy⟩
      · exact ih hys hx

/-- A file whose values are written from some states is read if all of
them are, and gives what they give. -/
theorem readPrObject_values {α σ : Type} (what : Text) {path : Text}
    (readValue : Text → Json → Except Text α) (json : σ → Json)
    (value : σ → α) (plain : σ → Prop) (hpath : path ≠ [])
    (hplain : ∀ key s, plain s → readValue key (json s) = .ok (value s))
    (hdate : ∀ key s, ¬ plain s → ∀ v, readValue key (json s) ≠ .ok v)
    (members : List (Text × σ)) :
    ((∃ read, readPrObject what readValue path
        (.ok (.obj (members.map fun m => (m.1, json m.2)))) = .ok read)
      ↔ ∀ m ∈ members, plain m.2)
    ∧ ∀ read, readPrObject what readValue path
        (.ok (.obj (members.map fun m => (m.1, json m.2)))) = .ok read →
      ∀ n, read n = (members.lookup n).map value := by
  have hread : readPrObject what readValue path
      (.ok (.obj (members.map fun m => (m.1, json m.2))))
      = ((members.map fun m => (m.1, json m.2)).mapM
          fun m => (readValue m.1 m.2).map (m.1, ·)).map
        fun entries n => entries.lookup n := by
    unfold readPrObject
    rw [if_neg hpath]
    dsimp only [Json.converted]
    cases (members.map fun m => (m.1, json m.2)).mapM fun m =>
      (readValue m.1 m.2).map (m.1, ·) <;> rfl
  have hok : (∀ m ∈ members, plain m.2) →
      (members.map fun m => (m.1, json m.2)).mapM
        (fun m => (readValue m.1 m.2).map (m.1, ·))
        = .ok (members.map fun m => (m.1, value m.2)) := by
    intro h
    rw [List.mapM_map]
    apply mapM_of_forall_ok
    intro m hm
    show (readValue m.1 (json m.2)).map (m.1, ·) = _
    rw [hplain m.1 m.2 (h m hm)]
    rfl
  have hall : ∀ read, readPrObject what readValue path
      (.ok (.obj (members.map fun m => (m.1, json m.2)))) = .ok read →
      ∀ m ∈ members, plain m.2 := by
    intro read h m hm
    rw [hread] at h
    obtain ⟨entries, hentries, -⟩ := exists_of_map_ok h
    by_contra hm'
    obtain ⟨y, hy⟩ := forall_ok_of_mapM hentries
      (List.mem_map_of_mem (f := fun m => (m.1, json m.2)) hm)
    obtain ⟨v, hv, -⟩ := exists_of_map_ok hy
    exact hdate m.1 m.2 hm' v hv
  constructor
  · constructor
    · rintro ⟨read, h⟩
      exact hall read h
    · intro h
      rw [hread, hok h]
      exact ⟨_, rfl⟩
  · intro read h n
    have hplainAll := hall read h
    rw [hread, hok hplainAll] at h
    cases h
    exact lookup_map

-- ============================================================ pull requests

/-- A pull request, as GitHub has it. -/
structure PullRequest where
  merged : Bool
  mergeCommitSha : Option Text
  baseRef : Text
  baseRepo : Text
  headRef : Text
  headRepo : Option Text
  headSha : Text
  mergedAs : merged = true → mergeCommitSha ≠ none
  shaOfHead : IsSha headSha

/-- What GitHub has for a number: nothing, or a pull request and the
parents and the tree of its head, as far as the head is still there. -/
inductive PullState where
  | notFound
  | found (p : PullRequest) (head : Option (List Text × Text))

/-- A body that says what a pull request is; the rest of it is left
open. -/
structure PullSays (body : Json) (p : PullRequest) : Prop where
  merged : body.path ["merged".toList] = some (.bool p.merged)
  mergeCommitSha : body.path ["merge_commit_sha".toList]
    = some (.ofText? p.mergeCommitSha)
  baseRef : body.path ["base".toList, "ref".toList] = some (.str p.baseRef)
  baseRepo : body.path ["base".toList, "repo".toList, "full_name".toList]
    = some (.str p.baseRepo)
  headRef : body.path ["head".toList, "ref".toList] = some (.str p.headRef)
  headRepo : Json.orNull
      (body.path ["head".toList, "repo".toList, "full_name".toList])
    = .ofText? p.headRepo
  headSha : body.path ["head".toList, "sha".toList] = some (.str p.headSha)

/-- A body that says what the parents and the tree of a commit are. -/
structure CommitSays (body : Json) (parents : List Text) (tree : Text) :
    Prop where
  parents : parentShas body = some (.arr (parents.map .str))
  tree : body.path ["commit".toList, "tree".toList, "sha".toList]
    = some (.str tree)

/-- The answers for a line, where GitHub can be reached. -/
inductive PullAnswered : AskedPull → PullState → Prop
  | notFound (line : Text) (code : Nat) (err : Text) (commit : GhAnswer)
      (h : contains "HTTP 404".toList err = true) :
      PullAnswered ⟨line, .failed code err, commit⟩ .notFound
  | headLost (line : Text) (body : Json) (p : PullRequest) (code : Nat)
      (err : Text) (hp : PullSays body p)
      (h : contains "HTTP 404".toList err = true
        ∨ contains "HTTP 422".toList err = true) :
      PullAnswered ⟨line, .ok body, .failed code err⟩ (.found p none)
  | found (line : Text) (body commit : Json) (p : PullRequest)
      (parents : List Text) (tree : Text) (hp : PullSays body p)
      (hc : CommitSays commit parents tree) :
      PullAnswered ⟨line, .ok body, .ok commit⟩
        (.found p (some (parents, tree)))

namespace PullState

/-- What `changelog.ps1` is to see of it. -/
def entry : PullState → PrEntry
  | .notFound => none
  | .found p head => some {
      merged := p.merged
      mergeCommitSha := p.mergeCommitSha
      baseRef := p.baseRef
      baseRepo := p.baseRepo
      headRef := p.headRef
      headRepo := p.headRepo
      headParents := head.map Prod.fst
      headTree := head.map Prod.snd }

/-- The texts of the entry that are checked to be strings. -/
def texts : PullState → List Text
  | .notFound => []
  | .found p head =>
      p.mergeCommitSha.toList ++ p.headRepo.toList
        ++ [p.baseRef, p.baseRepo, p.headRef, p.headSha]
        ++ (head.map Prod.fst).getD [] ++ (head.map Prod.snd).toList

/-- The members of an entry that has `found` true. -/
def members (p : PullRequest) (head : Option (List Text × Text)) :
    List (Text × Json) := [
  ("found".toList, .bool true),
  ("merged".toList, .bool p.merged),
  ("mergeCommitSha".toList, .ofText? p.mergeCommitSha),
  ("baseRef".toList, .str p.baseRef),
  ("baseRepo".toList, .str p.baseRepo),
  ("headRef".toList, .str p.headRef),
  ("headRepo".toList, .ofText? p.headRepo),
  ("headSha".toList, .str p.headSha),
  ("headParents".toList,
    match head with
    | some (parents, _) => .arr (parents.map .str)
    | none => .null),
  ("headTree".toList, .ofText? (head.map Prod.snd))]

/-- The entry as it is written. -/
def json : PullState → Json
  | .notFound => notFoundEntry
  | .found p head => .obj (members p head)

end PullState

theorem foundEntry_pull {body : Json} {p : PullRequest} (h : PullSays body p)
    (head : Option (List Text × Text)) :
    foundEntry body
        (match head with
        | some (parents, _) => .arr (parents.map .str)
        | none => .null)
        (.ofText? (head.map Prod.snd))
      = some (.obj (PullState.members p head)) := by
  unfold foundEntry
  rw [h.merged, h.mergeCommitSha, h.baseRef, h.baseRepo, h.headRef, h.headRepo,
    h.headSha]
  rfl

theorem rdropWhile_sha {t : Text} (h : IsSha t) :
    t.rdropWhile (· == '\n') = t := by
  rw [List.rdropWhile_eq_self_iff]
  intro hne hlast
  have hmem := h.2 _ (List.getLast_mem hne)
  rw [eq_of_beq hlast] at hmem
  exact absurd hmem (by decide)

/-- The script writes what GitHub says. -/
theorem fetchPull_answered {raw : Json → Text} (hraw : ∀ t, raw (.str t) = t)
    {asked : AskedPull} {state : PullState} (h : PullAnswered asked state)
    (n : Text) : fetchPull raw n asked = .ok state.json := by
  cases h with
  | notFound line code err commit h =>
      unfold fetchPull
      dsimp only
      rw [if_pos h]
      rfl
  | headLost line body p code err hp h =>
      unfold fetchPull
      dsimp only
      rw [hp.headSha]
      dsimp only
      rw [hraw, rdropWhile_sha p.shaOfHead, if_neg (not_not.mpr p.shaOfHead),
        if_pos h]
      exact congrArg jqResult (foundEntry_pull hp none)
  | found line body commit p parents tree hp hc =>
      unfold fetchPull
      dsimp only
      rw [hp.headSha]
      dsimp only
      rw [hraw, rdropWhile_sha p.shaOfHead, if_neg (not_not.mpr p.shaOfHead),
        hc.parents, hc.tree]
      exact congrArg jqResult (foundEntry_pull hp (some (parents, tree)))

-- ============================================================== the reading

theorem faultOf_eq_none {names : List Text} {fails : Text → Bool}
    {message : Text → Text} :
    faultOf names fails message = none ↔ ∀ name ∈ names, fails name = false := by
  unfold faultOf
  rw [Option.map_eq_none_iff, List.find?_eq_none]
  simp

theorem ofText?_fits {date : Text → Bool} {t : Option Text} :
    (!(Json.ofText? t).isNull && !(Json.ofText? t).isString date) = false
      ↔ ∀ x ∈ t.toList, date x = false := by
  cases t with
  | none => simp [Json.ofText?, Json.isNull]
  | some x => simp [Json.ofText?, Json.isNull]

section Entry

variable {date : Text → Bool} {path key : Text}
variable {p : PullRequest} {head : Option (List Text × Text)}

theorem members_missing :
    ∀ name ∈ ["mergeCommitSha".toList, "headRepo".toList,
      "headParents".toList, "headTree".toList],
      (!Json.containsKey name (PullState.members p head)) = false := by
  rw [List.forall_mem_cons, List.forall_mem_cons, List.forall_mem_cons,
    List.forall_mem_singleton]
  exact ⟨rfl, rfl, rfl, rfl⟩

theorem members_strings :
    (∀ name ∈ ["baseRef".toList, "baseRepo".toList, "headRef".toList,
        "headSha".toList],
      (!(Json.item name (PullState.members p head)).isString date) = false)
    ↔ ∀ t ∈ [p.baseRef, p.baseRepo, p.headRef, p.headSha],
      date t = false := by
  rw [List.forall_mem_cons, List.forall_mem_cons, List.forall_mem_cons,
    List.forall_mem_singleton, List.forall_mem_cons, List.forall_mem_cons,
    List.forall_mem_cons, List.forall_mem_singleton]
  show ((!!date p.baseRef) = false ∧ (!!date p.baseRepo) = false
    ∧ (!!date p.headRef) = false ∧ (!!date p.headSha) = false) ↔ _
  rw [Bool.not_not, Bool.not_not, Bool.not_not, Bool.not_not]

theorem members_nullable :
    (∀ name ∈ ["mergeCommitSha".toList, "headRepo".toList,
        "headTree".toList],
      (!(Json.item name (PullState.members p head)).isNull
        && !(Json.item name (PullState.members p head)).isString date) = false)
    ↔ ∀ t ∈ p.mergeCommitSha.toList ++ p.headRepo.toList
        ++ (head.map Prod.snd).toList, date t = false := by
  rw [List.forall_mem_cons, List.forall_mem_cons, List.forall_mem_singleton,
    List.forall_mem_append, List.forall_mem_append, ← ofText?_fits,
    ← ofText?_fits, ← ofText?_fits, and_assoc]
  rfl

theorem mergedFault_members :
    mergedFault date path key (PullState.members p head) = none
      ↔ ∀ t ∈ (head.map Prod.fst).getD [], date t = false := by
  have hmerged : (p.merged && (Json.ofText? p.mergeCommitSha).isNull) = false := by
    rw [Json.isNull_ofText?, Bool.and_eq_false_imp]
    intro hm
    rw [Option.isNone_eq_false_iff, Option.isSome_iff_ne_none]
    exact p.mergedAs hm
  show (if p.merged && (Json.ofText? p.mergeCommitSha).isNull then _ else _)
    = none ↔ _
  rw [hmerged, if_neg Bool.false_ne_true]
  cases head with
  | none =>
      constructor
      · exact fun _ => List.forall_mem_nil _
      · exact fun _ => rfl
  | some head =>
      show (if true && !Json.isStrings date (.arr (head.1.map .str)) then _
        else _) = none ↔ ∀ t ∈ head.1, date t = false
      rw [Json.isStrings_strs, Bool.true_and]
      by_cases hdate : ∀ t ∈ head.1, date t = false
      · rw [if_neg (by simpa using hdate)]
        exact ⟨fun _ => hdate, fun _ => rfl⟩
      · rw [if_pos (by simpa using hdate)]
        exact ⟨fun h => (Option.some_ne_none _ h).elim, fun h => absurd h hdate⟩

/-- The texts of an entry are all that can be wrong with it. -/
theorem entryFault_members :
    entryFault date path key (PullState.members p head) = none
      ↔ ∀ t ∈ (PullState.found p head).texts, date t = false := by
  unfold entryFault PullState.texts
  dsimp only
  rw [Option.orElse_eq_none, Option.orElse_eq_none, Option.orElse_eq_none,
    faultOf_eq_none, faultOf_eq_none, faultOf_eq_none, members_strings,
    members_nullable, mergedFault_members]
  simp only [List.forall_mem_append]
  constructor
  · rintro ⟨-, hstrings, ⟨⟨hsha, hrepo⟩, htree⟩, hparents⟩
    exact ⟨⟨⟨⟨hsha, hrepo⟩, hstrings⟩, hparents⟩, htree⟩
  · rintro ⟨⟨⟨⟨hsha, hrepo⟩, hstrings⟩, hparents⟩, htree⟩
    exact ⟨members_missing, hstrings, ⟨⟨hsha, hrepo⟩, htree⟩, hparents⟩

end Entry

/-- No text of it is a date to `ConvertFrom-Json`. -/
def PullState.Plain (date : Text → Bool) (state : PullState) : Prop :=
  ∀ t ∈ state.texts, date t = false

theorem entryData_members (p : PullRequest) (head : Option (List Text × Text)) :
    some (entryData (PullState.members p head)) = (PullState.found p head).entry := by
  have hparents : (Json.item "headParents".toList
      (PullState.members p head)).texts? = head.map Prod.fst := by
    cases head with
    | none => rfl
    | some head => exact Json.texts?_strs head.1
  have hsha : (Json.item "mergeCommitSha".toList
      (PullState.members p head)).text? = p.mergeCommitSha :=
    Json.text?_ofText? _
  have hrepo : (Json.item "headRepo".toList
      (PullState.members p head)).text? = p.headRepo :=
    Json.text?_ofText? _
  have htree : (Json.item "headTree".toList
      (PullState.members p head)).text? = head.map Prod.snd :=
    Json.text?_ofText? _
  unfold entryData PullState.entry
  rw [hparents, hsha, hrepo, htree]
  rfl

/-- An entry is read as what GitHub said, unless a text of it is a date. -/
theorem readEntry_json {date : Text → Bool} {path : Text} (key : Text)
    (state : PullState) :
    (state.Plain date → readEntry date path key state.json = .ok state.entry)
    ∧ (¬ state.Plain date → ∀ entry,
      readEntry date path key state.json ≠ .ok entry) := by
  cases state with
  | notFound =>
      constructor
      · exact fun _ => rfl
      · exact fun h => absurd (List.forall_mem_nil _) h
  | found p head =>
      have hread : readEntry date path key (PullState.found p head).json
          = readFound date path key (PullState.members p head) := rfl
      unfold readFound at hread
      constructor
      · intro h
        rw [hread, entryFault_members.mpr h]
        exact congrArg Except.ok (entryData_members p head)
      · intro h entry hok
        rw [hread] at hok
        split at hok
        next => cases hok
        next hnone => exact h (entryFault_members.mp hnone)

/-- The file the script writes gives `changelog.ps1` what GitHub said last
of each number, and it is refused exactly if that holds a date. -/
theorem pr_releases_read_back {raw : Json → Text}
    (hraw : ∀ t, raw (.str t) = t) {asked : List AskedPull}
    {states : List PullState}
    (hanswers : List.Forall₂ (fun a s => readLine a.line ≠ [] → PullAnswered a s)
      asked states)
    (date : Text → Bool) {path : Text} (hpath : path ≠ []) :
    ∃ file, fetchPrReleases raw asked = .ok file
      ∧ ((∃ releases, readPrReleases date path (.ok (.obj file)) = .ok releases)
        ↔ ∀ n state, lastOf (numbered AskedPull.line asked states) n = some state →
          state.Plain date)
      ∧ ∀ releases, readPrReleases date path (.ok (.obj file)) = .ok releases →
        ∀ n, releases n
          = (lastOf (numbered AskedPull.line asked states) n).map
            PullState.entry := by
  have hloop := hanswers.imp fun _ _ h hline n =>
    fetchPull_answered hraw (h hline) n
  refine ⟨_, fetchLoop_answered hloop [], ?_⟩
  obtain ⟨hread, hgives⟩ := readPrObject_values "pull request data".toList
    (readEntry date path) PullState.json PullState.entry (PullState.Plain date)
    hpath (fun key state => (readEntry_json key state).1)
    (fun key state => (readEntry_json key state).2)
    (setAll [] (numbered AskedPull.line asked states))
  constructor
  · exact hread.trans mem_file
  · intro releases hreleases n
    rw [hgives releases hreleases n, lookup_file]

/-- Two numbers and a blank line: a merged pull request whose head is gone,
and none. -/
def askedPulls : List AskedPull := [
  ⟨" 7".toList,
    .ok (.obj [
      ("merged".toList, .bool true),
      ("merge_commit_sha".toList, .str (List.replicate 40 'c')),
      ("base".toList, .obj [
        ("ref".toList, .str "main".toList),
        ("repo".toList, .obj [("full_name".toList, .str "o/r".toList)])]),
      ("head".toList, .obj [
        ("ref".toList, .str "release/next".toList),
        ("repo".toList, .null),
        ("sha".toList, .str (List.replicate 40 'd'))])]),
    .failed 1 "HTTP 422".toList⟩,
  ⟨[], .failed 1 [], .failed 1 []⟩,
  ⟨"9".toList, .failed 1 "HTTP 404".toList, .failed 1 []⟩]

def pullSeven : PullRequest where
  merged := true
  mergeCommitSha := some (List.replicate 40 'c')
  baseRef := "main".toList
  baseRepo := "o/r".toList
  headRef := "release/next".toList
  headRepo := none
  headSha := List.replicate 40 'd'
  mergedAs _ := Option.some_ne_none _
  shaOfHead := by decide

theorem pr_releases_read_back_asked : ∃ file releases,
    fetchPrReleases Json.text askedPulls = .ok file
      ∧ readPrReleases (fun t => t.contains ':') "f".toList (.ok (.obj file))
        = .ok releases
      ∧ releases "7".toList = some (PullState.found pullSeven none).entry
      ∧ releases "9".toList = some none := by
  have hanswers : List.Forall₂ (fun a s => readLine a.line ≠ [] → PullAnswered a s)
      askedPulls [.found pullSeven none, .notFound, .notFound] := by
    refine .cons (fun _ => ?_) (.cons (fun h => ?_) (.cons (fun _ => ?_) .nil))
    · exact .headLost _ _ _ _ _ ⟨rfl, rfl, rfl, rfl, rfl, rfl, rfl⟩
        (Or.inr (by decide))
    · exact absurd rfl h
    · exact .notFound _ _ _ _ (by decide)
  obtain ⟨file, hfile, hread, hgives⟩ := pr_releases_read_back Json.text_str
    hanswers (fun t => t.contains ':') (show "f".toList ≠ [] by decide)
  obtain ⟨releases, hreleases⟩ := hread.mpr (by
    intro n state hstate
    have hmem := state_of_lastOf hstate
    rw [List.mem_cons, List.mem_cons, List.mem_singleton] at hmem
    rcases hmem with rfl | rfl | rfl
    · unfold PullState.Plain
      decide
    · exact List.forall_mem_nil _
    · exact List.forall_mem_nil _)
  refine ⟨file, releases, hfile, hreleases, ?_, ?_⟩
  · rw [hgives releases hreleases]
    rfl
  · rw [hgives releases hreleases]
    rfl

end RestifyCapl.Ci
