/-
`Invoke-ExportTableCheck` of scripts/list-export-table.ps1: the table is
found among the tokens and cut into rows, then the checks 1 to 12 run.

A check gives what it has to say as a number and a text; the row adds
its line, index and name. The rows of the markdown table, which no
check reads, are in Export/Markdown.lean; the `catch` around the whole is
left out: the definitions here are total.
-/
import RestifyCapl.Export.Fields

namespace RestifyCapl.Export

open Ci

-- ================================================================ platform

/-- Printable ASCII. -/
def Printable (t : Text) : Prop := ∀ c ∈ t, 0x20 ≤ c.toNat ∧ c.toNat ≤ 0x7E

instance (t : Text) : Decidable (Printable t) :=
  List.decidableBAll _ t

/-- Where the script runs. `-ceq` compares strings by the rules of the
invariant culture, which are the platform's (ICU, NLS or none): they
ignore some characters and identify others, but are equality between
texts in printable ASCII. `ceq` stands where the script compares
signatures; the identifiers and the single characters it looks for are
compared by equality. -/
structure Platform where
  /-- `[System.Text.Encoding]::UTF8.GetString`. -/
  getString : Bytes → Text
  ceq : Text → Text → Bool
  eq_of_ceq : ∀ s t, Printable s → Printable t → ceq s t = true → s = t

variable (os : Platform)

-- ================================================================ failures

/-- `Add-Fail`. -/
structure Failure where
  check : Nat
  line : Nat
  row : Option Nat
  name : Option Text
  message : Text
deriving DecidableEq

/-- A failure of the file, not of a row. -/
def fileFailure (check line : Nat) (message : Text) : Failure :=
  ⟨check, line, none, none, message⟩

/-- `$unparsable`. -/
def unparsable : Text := "table cannot be located or parsed: ".toList

-- =================================================================== table

/-- An element of `$rows`. -/
structure Row where
  index : Nat
  line : Nat
  fields : List Field

/-- What the checks of the rows read: `$raw[$open].Line`, `$consts` and
`$rows`. -/
structure Table where
  line : Nat
  consts : Consts
  rows : List Row

/-- The line of the opening brace of a declaration that starts these
tokens, and what follows the brace. -/
def tableStartAt : List Token → Option (Nat × List Token)
  | ⟨.id info, _⟩ :: ⟨.id list, _⟩ :: ⟨.punct '[', _⟩ :: ⟨.punct ']', _⟩
      :: ⟨.punct '=', _⟩ :: ⟨.punct '{', line⟩ :: rest =>
      if info.text = "CAPL_DLL_INFO4".toList
          ∧ list.text = "CAPL_DLL_INFO_LIST4".toList then some (line, rest)
      else none
  | _ => none

/-- `$starts`. -/
def tableStarts (raw : List Token) : List (Nat × List Token) :=
  raw.tails.filterMap tableStartAt

def directiveFailure (t : Token) : Option Failure :=
  match t.value with
  | .pp d => some (fileFailure 8 t.line
      ("preprocessor directive inside the table: ".toList ++ d.text))
  | _ => none

/-- A token behind `$body`: adjacent strings are one. -/
def addToBody (body : List Token) (t : Token) : List Token :=
  match body.getLast?, t.value with
  | some ⟨.str first, line⟩, .str second =>
      body.dropLast ++ [⟨.str (first ++ second), line⟩]
  | _, _ => body ++ [t]

/-- `$body`. -/
def tableBody (inside : List Token) : List Token :=
  (inside.filter fun t => (directiveFailure t).isNone).foldl addToBody []

/-- `$rows`; `skip` tokens of the row before are left. -/
def readRows : Nat → Nat → List Token → Except Failure (List Row)
  | _, _, [] => .ok []
  | index, skip + 1, _ :: ts => readRows index skip ts
  | index, 0, t :: ts =>
      if t.value = .punct '{' then
        match closeBrace 1 (ts.map Token.value) with
        | none => .error (fileFailure 1 t.line
            (unparsable ++ "unbalanced braces in a row".toList))
        | some e =>
            let fields := splitTop ((ts.map Token.value).take e)
            let comma := (ts.drop (e + 1)).head?.map Token.value
            let skip := if comma = some (.punct ',') then e + 2 else e + 1
            (readRows (index + 1) skip ts).map (⟨index, t.line, fields⟩ :: ·)
      else .error (fileFailure 1 t.line
        (unparsable ++ "unexpected token between rows".toList))

/-- The table, or none where the script stops, and the failures up to
there. -/
def readTable (text : Text) : List Failure × Option Table :=
  match readTokens 0 1 true text with
  | .error (line, message) => ([fileFailure 1 line (unparsable ++ message)], none)
  | .ok raw =>
      match tableStarts raw with
      | [] => ([fileFailure 1 1 (unparsable ++ ("start marker "
          ++ "\"CAPL_DLL_INFO4 CAPL_DLL_INFO_LIST4[] = \x7b\" not found").toList)],
          none)
      | (line, rest) :: more =>
          let again := more.head?.toList.map fun second =>
            fileFailure 1 second.1 ("the table declaration occurs ".toList
              ++ format (more.length + 1) ++ (" times, expected exactly once; "
                ++ "checks 2-12 run on the first table only").toList)
          match closeBrace 1 (rest.map Token.value) with
          | none => (again ++ [fileFailure 1 line (unparsable
              ++ "unbalanced braces, the table end was not found".toList)], none)
          | some close =>
              let inside := rest.take close
              let failures := again ++ inside.filterMap directiveFailure
              match readRows 0 0 (tableBody inside) with
              | .error failure => (failures ++ [failure], none)
              | .ok rows => (failures, some ⟨line, getRefConstants raw, rows⟩)

-- ===================================================== version and sentinel

/-- `$want0`. -/
def want0 : List Text :=
  ["id:CDLL_VERSION_NAME".toList, "( id:CAPL_FARCALL ) id:CDLL_VERSION".toList,
    "s:".toList, "s:".toList, "n:0".toList, "n:0".toList, "s:".toList,
    "s:".toList, "\x7b s: \x7d".toList]

/-- `$row0ok`. -/
def isVersionRow (fields : List Field) : Bool :=
  fields.length == 9
    && (fields.zip want0).all fun f => os.ceq (getFieldSig f.1) f.2

/-- A row `{0}`. -/
def isSentinel (row : Row) : Bool :=
  match row.fields with
  | [f] => os.ceq (getFieldSig f) "n:0".toList
  | _ => false

/-- `$hasSentinel`. -/
def hasSentinel (rows : List Row) : Bool :=
  decide (2 ≤ rows.length) && rows.getLast?.any (isSentinel os)

/-- `$funcRows`. -/
def funcRows (rows : List Row) : List Row :=
  if hasSentinel os rows then rows.tail.dropLast else rows.tail

-- ============================================================== checks 4-6

/-- A check and its text. -/
abbrev Finding := Nat × Text

/-- `$want1`. -/
def want1 : Text := "( id:CAPL_FARCALL ) id:".toList

def check4 (nameRaw : Option Bytes) (f : Field) : List Finding :=
  let ok4 := match nameRaw with
    | some raw => os.ceq (getFieldSig f) (want1 ++ byteText raw)
    | none => decide (want1 <+: getFieldSig f)
  if ok4 then []
  else [(4, ("field 1 must be (CAPL_FARCALL) followed by the same name as "
    ++ "field 0; found: ").toList ++ getFieldText f)]

def check5 (seen : List Bytes) : Option Bytes → List Finding
  | none => [(5, "field 0 (the name) must be a string literal".toList)]
  | some raw =>
      (if "restify".toList <+: byteText raw then []
        else [(5, "the name must start with \"restify\"".toList)])
      ++ (if raw.length > 49 then
          [(5, "the name has ".toList ++ format raw.length
            ++ " characters, at most 49 are allowed".toList)]
        else [])
      ++ (if raw ∈ seen then [(5, "the name is not unique in the table".toList)]
        else [])

def nonEmptyStr : Field → Bool
  | [.str value] => !value.isEmpty
  | _ => false

def check6 (what : Text) (f : Field) : List Finding :=
  if nonEmptyStr f then []
  else [(6, what ++ " must be a non-empty string literal".toList)]

-- ================================================================= check 7

/-- `$pc`, or what is wrong with it. -/
def readParCount : Field → Except Finding Nat
  | [.num n] =>
      if n > 64 then .error (7, "parCount ".toList ++ format n
        ++ " is outside the range 0 to 64".toList)
      else .ok n
  | f => .error (7, "parCount must be an integer literal; found: ".toList
      ++ getFieldText f)

/-- `Test-EmptyStr`. -/
def testEmptyStr (f : Field) : Bool := f == [.str []]

/-- `$okNames`. -/
def okNames (f : Field) : Bool :=
  getListItems f == some ⟨.brace, [.tokens [.str []]]⟩

/-- Field 8 of a parameter. -/
def itemName : Item → Option Bytes
  | .tokens [.str value] => some value
  | _ => none

def checkCount (what extra : Text) (pc : Nat) (list : ListItems) : List Finding :=
  if list.items.length = pc then []
  else [(7, what ++ " has ".toList ++ format list.items.length
    ++ " entries, parCount is ".toList ++ format pc ++ extra)]

/-- `$extra`. -/
def emptyDimensions (list : ListItems) : Text :=
  if list.form = .string ∧ list.items = [] then
    (" (an empty \"\" dimension string is not accepted when parCount is 1 or "
      ++ "more)").toList
  else []

def check7Types (pc : Nat) : Option ListItems → List Finding
  | none => [(7, "parTypes must be a string literal or a brace list".toList)]
  | some types => checkCount "parTypes".toList [] pc types

def check7Dims (pc : Nat) : Option ListItems → List Finding
  | none => [(7, "array must be a string literal or a brace list".toList)]
  | some dims => checkCount "array".toList (emptyDimensions dims) pc dims

def check7Names (pc : Nat) : Option ListItems → List Finding
  | some ⟨.brace, items⟩ =>
      checkCount "parNames".toList [] pc ⟨.brace, items⟩
        ++ (if items.all fun item => (itemName item).isSome then []
          else [(7, "every parNames entry must be a string literal".toList)])
  | _ => [(7, "parNames must be a brace list of string literals".toList)]

/-- A parameter of a row: its entry in `parNames`, `parTypes` and
`array`. -/
structure Parameter where
  name : Bytes
  type : Item
  dimension : Item

def parameters (types dims names : Option ListItems) : List Parameter :=
  let items (list : Option ListItems) := (list.map ListItems.items).getD []
  (((items names).filterMap itemName).zip ((items types).zip (items dims))).map
    fun entry => ⟨entry.1, entry.2.1, entry.2.2⟩

/-- Check 7: the parameters where it has nothing to say. -/
def check7 (f5 f6 f7 f8 : Field) : Except (List Finding) (List Parameter) :=
  match readParCount f5 with
  | .error finding => .error [finding]
  | .ok 0 =>
      if testEmptyStr f6 && testEmptyStr f7 && okNames f8 then .ok []
      else .error [(7, ("a function without parameters must be written as "
        ++ "parCount 0, \"\", \"\", \x7b\"\"\x7d (project rule, stricter than "
        ++ "Vector, which also accepts other forms); found: ").toList
        ++ getFieldText f6 ++ ", ".toList ++ getFieldText f7 ++ ", ".toList
        ++ getFieldText f8)]
  | .ok pc =>
      let types := getListItems f6
      let dims := getListItems f7
      let names := getListItems f8
      match check7Types pc types ++ check7Dims pc dims ++ check7Names pc names with
      | [] => .ok (parameters types dims names)
      | findings => .error findings

-- ============================================================= checks 9-12

def checkReturn (consts : Consts) (f : Field) : List Finding :=
  match resolveTypeItem consts (.tokens f) with
  | .error problem => [(9, "return type: ".toList ++ problem)]
  | .ok cls =>
      if cls.ref = false ∧ cls.base ∈ returnTypes then []
      else [(10, "return type ".toList ++ [cls.base]
        ++ (if cls.ref then " (reference)".toList else [])
        ++ (" is not allowed; a return type must be one of V, L, D, 6, U, F "
          ++ "(no array-only type, no reference)").toList)]

/-- `$dv`. -/
def dimensionValue : Item → Option Nat
  | .code value => some value.toNat
  | .tokens [.num value] => some value
  | .tokens [.chr value] => some value.toNat
  | _ => none

def itemText : Item → Text
  | .code _ => []
  | .tokens toks => getFieldText toks

def check11 (label : Text) (item : Item) : List Finding :=
  match dimensionValue item with
  | none => [(11, label ++ ": the dimension must be an integer constant; found: ".toList
      ++ itemText item)]
  | some dv =>
      if dv ≠ 0 ∧ dv ≠ 1 ∧ dv ≠ 2 then
        [(11, label ++ ": dimension ".toList ++ format dv
          ++ " is not allowed, only 0, 1 or 2".toList)]
      else []

/-- Check 10, where there is a dimension. -/
def checkDimension (label : Text) (cls : TypeClass) (dv : Nat) : List Finding :=
  (if cls.base ∈ arrayOnlyTypes ∧ dv = 0 then
      [(10, label ++ ": type ".toList ++ [cls.base]
        ++ " is only valid for arrays, its dimension must not be 0".toList)]
    else [])
  ++ (if cls.ref ∧ dv ≠ 0 then
      [(10, label ++ ": a reference parameter cannot have a dimension".toList)]
    else [])

def checkParameter (consts : Consts) (label : Text) (par : Parameter) :
    List Finding :=
  check11 label par.dimension
  ++ match resolveTypeItem consts par.type with
    | .error problem => [(9, label ++ ": ".toList ++ problem)]
    | .ok cls =>
        ((dimensionValue par.dimension).map (checkDimension label cls)).getD []
        ++ (if cls.base = 'V' then
            [(10, label ++ ": V (void) is not valid as a parameter type".toList)]
          else [])

def parameterLabel (p : Nat) : Text := "parameter ".toList ++ format p

/-- The loop over the parameters, from one on. -/
def checkParameters (consts : Consts) : Nat → List Parameter → List Finding
  | _, [] => []
  | p, par :: pars =>
      checkParameter consts (parameterLabel p ++ " (".toList
        ++ os.getString par.name ++ ")".toList) par
      ++ checkParameters consts (p + 1) pars

/-- `^[A-Za-z_][A-Za-z0-9_]*$`. -/
def reIdentifier (t : Text) : Bool :=
  (atEnd (fun t => if isIdentifier t then some () else none) t).isSome

/-- Check 12, from a parameter on; `seen` is `$rowSeen`. -/
def check12 (seen : List Bytes) : Nat → List Bytes → List Finding
  | _, [] => []
  | p, pn :: names =>
      if pn = [] then
        (12, parameterLabel p ++ ": the name is empty".toList)
          :: check12 seen (p + 1) names
      else if !reIdentifier (byteText pn) then
        (12, parameterLabel p ++ ": \"".toList ++ formatEscaped pn
          ++ "\" is not a valid identifier".toList) :: check12 seen (p + 1) names
      else if pn ∈ seen then
        (12, parameterLabel p ++ ": the name \"".toList ++ byteText pn
          ++ "\" is used twice in this row".toList) :: check12 seen (p + 1) names
      else check12 (pn :: seen) (p + 1) names

-- ==================================================================== rows

/-- `$nameRaw`. -/
def Row.nameRaw (row : Row) : Option Bytes :=
  match row.fields with
  | [.str value] :: _ => some value
  | _ => none

def Row.failure (row : Row) (finding : Finding) : Failure :=
  ⟨finding.1, row.line, some row.index, row.nameRaw.map os.getString, finding.2⟩

/-- The checks 4 to 12 of a row with nine fields. -/
def checkFields (consts : Consts) (seen : List Bytes) (nameRaw : Option Bytes)
    (f1 f2 f3 f4 f5 f6 f7 f8 : Field) : List Finding :=
  check4 os nameRaw f1 ++ check5 seen nameRaw
  ++ check6 "the category (field 2)".toList f2
  ++ check6 "the description (field 3)".toList f3
  ++ match check7 f5 f6 f7 f8 with
    | .error findings => findings
    | .ok pars =>
        checkReturn consts f4 ++ checkParameters os consts 0 pars
        ++ check12 [] 0 (pars.map Parameter.name)

def checkRow (consts : Consts) (seen : List Bytes) (row : Row) : List Failure :=
  match row.fields with
  | [_, f1, f2, f3, f4, f5, f6, f7, f8] =>
      (checkFields os consts seen row.nameRaw f1 f2 f3 f4 f5 f6 f7 f8).map
        (row.failure os)
  | fields =>
      [row.failure os (3, "expected exactly 9 fields, found ".toList
        ++ format fields.length)]

/-- `$seen` after a row. -/
def seenAfter (seen : List Bytes) (row : Row) : List Bytes :=
  if row.fields.length = 9 then row.nameRaw.toList ++ seen else seen

/-- The loop over `$funcRows`. -/
def checkRows (consts : Consts) (seen : List Bytes) : List Row → List Failure
  | [] => []
  | row :: rows =>
      checkRow os consts seen row ++ checkRows consts (seenAfter seen row) rows

-- =================================================================== check

def checkTable (table : Table) : List Failure :=
  match table.rows with
  | [] => [fileFailure 1 table.line
      "the table has no rows; row 0 must be the CDLL_VERSION_NAME row".toList]
  | r0 :: rows =>
      (if isVersionRow os r0.fields then []
        else [⟨1, r0.line, some 0, none, ("row 0 must be exactly "
          ++ "\x7bCDLL_VERSION_NAME, (CAPL_FARCALL)CDLL_VERSION, \"\", \"\", 0, "
          ++ "0, \"\", \"\", \x7b\"\"\x7d\x7d").toList⟩])
      ++ (if hasSentinel os (r0 :: rows) then []
        else [fileFailure 1 ((r0 :: rows).getLast (List.cons_ne_nil _ _)).line
          "the last row must be the terminating sentinel \x7b0\x7d".toList])
      ++ (if (funcRows os (r0 :: rows)).isEmpty then
          [fileFailure 2 table.line "the table has no function rows".toList]
        else [])
      ++ checkRows os table.consts [] (funcRows os (r0 :: rows))

/-- `Invoke-ExportTableCheck`: `$res.Failures`. -/
def invokeExportTableCheck (text : Text) : List Failure :=
  match readTable text with
  | (failures, none) => failures
  | (failures, some table) => failures ++ checkTable os table

end RestifyCapl.Export
