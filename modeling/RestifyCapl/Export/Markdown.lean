/-
The markdown table of scripts/list-export-table.ps1: what the check keeps
of a row it can read (`$res.Rows`), `Get-Markdown`, and how the release
workflow counts the rows of what came out.

`Invoke-ExportTableCheckCore` gathers the rows in the loop that runs the
checks; a row is kept where that loop has a category, a description, a
return type and every parameter's text, whatever else it says about it.
-/
import RestifyCapl.Export.Check
import RestifyCapl.Lib.Grouping

namespace RestifyCapl.Export

open Ci Lib

variable (os : Platform)

-- ============================================================== signatures

/-- `$TypeNames`. -/
def typeNames (base : Char) : Text :=
  match base with
  | 'V' => "void".toList
  | 'C' => "char".toList
  | 'B' => "byte".toList
  | 'I' => "int".toList
  | 'W' => "word".toList
  | 'L' => "long".toList
  | 'D' => "dword".toList
  | '6' => "int64".toList
  | 'U' => "qword".toList
  | 'F' => "float".toList
  | _ => []

/-- `$tn`. -/
def typeText (cls : TypeClass) : Text :=
  typeNames cls.base ++ if cls.ref then ['&'] else []

/-- `$suffix`. -/
def dimensionSuffix (dv : Nat) : Text :=
  if dv ≥ 2 then "[][]".toList else if dv ≥ 1 then "[]".toList else []

def paramText (type : TypeClass) (name : Text) (dv : Nat) : Text :=
  typeText type ++ " ".toList ++ name ++ dimensionSuffix dv

/-- A parameter's element of `$paramSigs`. -/
def paramSig (consts : Consts) (par : Parameter) : Option Text :=
  match resolveTypeItem consts par.type, dimensionValue par.dimension with
  | .ok cls, some dv => some (paramText cls (os.getString par.name) dv)
  | _, _ => none

/-- `$retType.Class`, where it is allowed. -/
def returnClass (consts : Consts) (f : Field) : Option TypeClass :=
  match resolveTypeItem consts (.tokens f) with
  | .ok cls => if cls.ref = false ∧ cls.base ∈ returnTypes then some cls else none
  | .error _ => none

def signatureText (result name : Text) (paramSigs : List Text) : Text :=
  result ++ " ".toList ++ name ++ "(".toList ++ ", ".toList.intercalate paramSigs
    ++ ")".toList

-- ==================================================================== rows

/-- An element of `$res.Rows`. -/
structure MarkdownRow where
  index : Nat
  category : Text
  description : Text
  signature : Text
deriving DecidableEq

/-- `$category` and `$desc`. -/
def stringText : Field → Option Text
  | [.str value] => if value.isEmpty then none else some (os.getString value)
  | _ => none

/-- What the loop adds to `$res.Rows` for a row. -/
def markdownRow (consts : Consts) (row : Row) : Option MarkdownRow :=
  match row.fields with
  | [_, _, f2, f3, f4, f5, f6, f7, f8] => do
      let nameRaw ← row.nameRaw
      let category ← stringText os f2
      let description ← stringText os f3
      let pars ← (check7 f5 f6 f7 f8).toOption
      let result ← returnClass consts f4
      let paramSigs ← pars.mapM (paramSig os consts)
      some
        { index := row.index
          category := category
          description := description
          signature := signatureText (typeNames result.base)
            (os.getString nameRaw) paramSigs }
  | _ => none

/-- `$res.Rows`. -/
def markdownRows (table : Table) : List MarkdownRow :=
  (funcRows os table.rows).filterMap (markdownRow os table.consts)

-- ================================================================ markdown

/-- ``-replace '[\r\n]+', ' '``; `inside` is within such a run. -/
def blankNewlines (inside : Bool) : Text → Text
  | [] => []
  | c :: rest =>
      if c = '\r' ∨ c = '\n' then
        (if inside then [] else [' ']) ++ blankNewlines true rest
      else c :: blankNewlines false rest

/-- `-replace '\|', '\|'`: the pattern is a bar, the replacement a
backslash and a bar. -/
def escapeBars (t : Text) : Text :=
  t.flatMap fun c => if c = '|' then ['\\', '|'] else [c]

namespace MarkdownRow

/-- A row's line. -/
def line (row : MarkdownRow) : Text :=
  "| ".toList ++ format row.index ++ " | `".toList ++ row.signature
    ++ "` | ".toList ++ blankNewlines false (escapeBars row.description)
    ++ " |".toList

end MarkdownRow

/-- The part of a category. -/
def categoryText (category : Text) (rows : List MarkdownRow) : Text :=
  "\n#### ".toList ++ category ++ "\n\n".toList
    ++ "| Row | Signature | Description |\n|---|---|---|\n".toList
    ++ rows.flatMap fun row => row.line ++ "\n".toList

/-- `Get-Markdown`. -/
def getMarkdown (rows : List MarkdownRow) : Text :=
  "Row 0 is the reserved `CDLL_VERSION` marker.\n".toList
    ++ (groupOn MarkdownRow.category rows).flatMap fun group =>
      categoryText group.1 group.2

-- =============================================================== the count

/-- `^\| [0-9]+ \| `. -/
def isFunctionRow (line : Text) : Bool :=
  match after "| ".toList line with
  | none => false
  | some t =>
      !(t.takeWhile isAsciiDigit).isEmpty
        && decide (" | ".toList <+: t.dropWhile isAsciiDigit)

/-- Where grep ends a line: a file with a NUL is a binary one, in which it
takes the NULs for line ends too. -/
def isGrepEnd (c : Char) : Bool := c == '\n' || c == '\x00'

/-- `grep -cE` of it, in the job `assemble`. -/
def countRows (markdown : Text) : Nat :=
  (markdown.splitOnP isGrepEnd).countP isFunctionRow

end RestifyCapl.Export
