/-
What an export table says: the functions a CAPL program may call, each
with its parameters, and when the rows of a table say it.

The functions carry what CAPL asks of them, so that rows which say a
function are sound rows. The lists of a row are read as the check reads
them; what they may hold is stated here.
-/
import RestifyCapl.Export.Check

namespace RestifyCapl.Export

open Ci

-- =============================================================== functions

structure Param where
  name : Text
  type : TypeClass
  dimension : Nat
  isIdent : isIdentifier name = true
  notVoid : type.base ≠ 'V'
  dimension_le : dimension ≤ 2
  ofArray : type.base ∈ arrayOnlyTypes → dimension = 1 ∨ dimension = 2
  ofReference : type.ref = true → dimension = 0

structure Function where
  name : Text
  result : Char
  params : List Param
  opening : "restify".toList <+: name
  short : name.length ≤ 49
  returns : result ∈ returnTypes
  count : params.length ≤ 64
  distinct : (params.map Param.name).Nodup

-- ==================================================================== rows

def identOf (text : String) (h : isIdentifier text.toList = true) : Lexeme :=
  .id ⟨text.toList, h⟩

/-- `(CAPL_FARCALL)name`. -/
def farCall (name : Lexeme) : Field :=
  [.punct '(', identOf "CAPL_FARCALL" (by decide), .punct ')', name]

/-- `{CDLL_VERSION_NAME, (CAPL_FARCALL)CDLL_VERSION, "", "", 0, 0, "", "",
{""}}`. -/
def versionRow : List Field :=
  [[identOf "CDLL_VERSION_NAME" (by decide)],
    farCall (identOf "CDLL_VERSION" (by decide)), [.str []], [.str []], [.num 0],
    [.num 0], [.str []], [.str []], [.punct '{', .str [], .punct '}']]

/-- `{0}`. -/
def sentinelRow : List Field := [[.num 0]]

def typeOf (consts : Consts) (item : Item) : Option TypeClass :=
  (resolveTypeItem consts item).toOption

/-- The `parTypes`, `array` and `parNames` of these parameters: as many
entries each as there are parameters. Without any they are
`"", "", {""}`. -/
inductive ListsSay (consts : Consts) : Field → Field → Field → List Param → Prop
  | empty {names : Field}
      (hnames : getListItems names = some ⟨.brace, [.tokens [.str []]]⟩) :
      ListsSay consts [.str []] [.str []] names []
  | entries {types dims names : Field} {ts ds : ListItems} {ns : List Item}
      {params : List Param} (hne : params ≠ [])
      (htypes : getListItems types = some ts)
      (hdims : getListItems dims = some ds)
      (hnames : getListItems names = some ⟨.brace, ns⟩)
      (htype : ts.items.map (typeOf consts) = params.map fun p => some p.type)
      (hdim : ds.items.map dimensionValue = params.map fun p => some p.dimension)
      (hname : ns.map (fun item => (itemName item).map byteText)
        = params.map fun p => some p.name) :
      ListsSay consts types dims names params

/-- The row of a function. -/
inductive RowSays (consts : Consts) : List Field → Function → Prop
  | row {f : Function} {raw : Bytes} {ident : Ident} {cls : TypeClass}
      {category description result types dims names : Field}
      (hraw : byteText raw = f.name) (hident : ident.text = f.name)
      (hresult : resolveTypeItem consts (.tokens result) = .ok cls)
      (hbase : cls.base = f.result) (hvalue : cls.ref = false)
      (hlists : ListsSay consts types dims names f.params) :
      RowSays consts
        [[.str raw], farCall (.id ident), category, description, result,
          [.num f.params.length], types, dims, names] f

/-- The table of these functions. -/
structure TableSays (table : Table) (fs : List Function) : Prop where
  rows : ∃ rows, table.rows.map Row.fields = versionRow :: rows ++ [sentinelRow]
    ∧ List.Forall₂ (RowSays table.consts) rows fs
  unique : (fs.map Function.name).Nodup

/-- The table of some functions. -/
def Table.Sound (table : Table) : Prop := ∃ fs, TableSays table fs

-- =============================================================== tame rows

def Row.field (row : Row) (k : Nat) : Field := row.fields.getD k []

/-- The strings in field 8. -/
def Row.parNames (row : Row) : List Bytes :=
  match getListItems (row.field 8) with
  | some list => list.items.filterMap itemName
  | none => []

/-- A row the checks are not taken in by: they compare field 1 with the
name as text, and `$` also matches before a final line feed. -/
structure Row.Tame (row : Row) : Prop where
  name : ∀ raw ∈ row.nameRaw, ∀ c ∈ byteText raw, isIdentChar c = true
  call : Printable (getFieldSig (row.field 1))
  params : ∀ pn ∈ row.parNames, pn.getLast? ≠ some 10

/-- So for each function, and nothing outside printable ASCII in the
first and last row. -/
structure Table.Tame (table : Table) : Prop where
  first : ∀ row ∈ table.rows.head?, ∀ f ∈ row.fields, Printable (getFieldSig f)
  last : ∀ row ∈ table.rows.getLast?, ∀ f ∈ row.fields, Printable (getFieldSig f)
  between : ∀ row ∈ table.rows.tail.dropLast, row.Tame

end RestifyCapl.Export
