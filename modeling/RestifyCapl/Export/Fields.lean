/-
The fields of a row in scripts/list-export-table.ps1, `Get-TokSig` to
`Resolve-TypeItem`: their signatures, the two spellings of a list, the
reference constants of the file and the type table.

A field keeps the values of its tokens only; nothing reads their lines.
-/
import RestifyCapl.Export.Tokens

namespace RestifyCapl.Export

open Ci

/-- The tokens of a field. -/
abbrev Field := List Lexeme

-- ============================================================== signatures

/-- A byte string as text: one character a byte. -/
def byteText (bs : Bytes) : Text := bs.map fun b => Char.ofNat b.toNat

/-- `Get-TokSig`. -/
def getTokSig : Lexeme → Text
  | .id name => "id:".toList ++ name.text
  | .str value => "s:".toList ++ byteText value
  | .chr value => "c:".toList ++ format value.toNat
  | .num value => "n:".toList ++ format value
  | .punct value => [value]
  | .pp value => value.text

/-- `Get-FieldSig`. -/
def getFieldSig (toks : Field) : Text := [' '].intercalate (toks.map getTokSig)

/-- `Format-Escaped`, of one byte. -/
def escapedByte (b : UInt8) : Text :=
  let c := b.toNat
  if 32 ≤ c ∧ c ≤ 126 ∧ c ≠ 34 ∧ c ≠ 92 then [Char.ofNat c]
  else '\\' :: ([c / 64, c / 8 % 8, c % 8].map fun d => Char.ofNat (48 + d))

/-- `Format-Escaped`. -/
def formatEscaped (bs : Bytes) : Text := bs.flatMap escapedByte

def lexemeText : Lexeme → Text
  | .id name => name.text
  | .str value => "\"".toList ++ formatEscaped value ++ "\"".toList
  | .chr value => "'".toList ++ formatEscaped [value] ++ "'".toList
  | .num value => format value
  | .punct value => [value]
  | .pp value => value.text

/-- `Get-FieldText`. -/
def getFieldText (toks : Field) : Text := [' '].intercalate (toks.map lexemeText)

-- =================================================================== lists

/-- Where the braces that `depth` counts close again. -/
def closeBrace (depth : Int) : Field → Option Nat
  | [] => none
  | t :: ts =>
      if t = .punct '{' then (closeBrace (depth + 1) ts).map (· + 1)
      else if t = .punct '}' then
        if depth - 1 = 0 then some 0
        else (closeBrace (depth - 1) ts).map (· + 1)
      else (closeBrace depth ts).map (· + 1)

/-- `Test-Brace`. -/
def testBrace (toks : Field) : Bool :=
  decide (2 ≤ toks.length) && toks.head? == some (.punct '{')
    && closeBrace 0 toks == some (toks.length - 1)

/-- `Get-BraceInner`. -/
def getBraceInner (toks : Field) : Field := toks.tail.dropLast

/-- What a token adds to the depth of `Split-Top`. -/
def depthStep (t : Lexeme) : Int :=
  if t = .punct '{' ∨ t = .punct '(' then 1
  else if t = .punct '}' ∨ t = .punct ')' then -1
  else 0

/-- `Split-Top`, with `$cur` and `$depth`. -/
def splitTopFrom : Int → Field → Field → List Field
  | _, cur, [] => if cur = [] then [] else [cur]
  | depth, cur, t :: ts =>
      if t = .punct ',' ∧ depth = 0 then cur :: splitTopFrom depth [] ts
      else splitTopFrom (depth + depthStep t) (cur ++ [t]) ts

/-- `Split-Top`. -/
def splitTop (toks : Field) : List Field := splitTopFrom 0 [] toks

/-- An entry of a list: `Code` of a string, `Tokens` of a brace list. -/
inductive Item where
  | code (value : UInt8)
  | tokens (toks : Field)
deriving DecidableEq

/-- `Form`. -/
inductive Form where
  | string
  | brace
deriving DecidableEq

structure ListItems where
  form : Form
  items : List Item
deriving DecidableEq

/-- `Get-ListItems`. -/
def getListItems (toks : Field) : Option ListItems :=
  match toks with
  | [.str value] => some ⟨.string, value.map .code⟩
  | _ =>
      if testBrace toks then
        some ⟨.brace, (splitTop (getBraceInner toks)).map .tokens⟩
      else none

-- =============================================================== constants

/-- The text after an opening. -/
def after (opening t : Text) : Option Text :=
  if opening <+: t then some (t.drop opening.length) else none

/-- `^id:static_cast < id:char > \( c:([0-9]+) - n:([0-9]+) \)$`, and the
difference of its groups. -/
def referenceValue (expr : Text) : Option Int :=
  atEnd (fun t => do
    let t ← after "id:static_cast < id:char > ( c:".toList t
    let c := t.takeWhile isAsciiDigit
    let t ← after " - n:".toList (t.dropWhile isAsciiDigit)
    let n := t.takeWhile isAsciiDigit
    if t.dropWhile isAsciiDigit = " )".toList ∧ c ≠ [] ∧ n ≠ [] then
      some ((toInt c : Int) - toInt n)
    else none) expr

/-- `$consts`; what was defined last stands first. -/
abbrev Consts := List (Text × Int)

/-- A `constexpr char` that starts these tokens, if it is a reference
constant. At least one token follows its `=`. -/
def refConstantAt : Field → Option (Text × Int)
  | .id constexpr :: .id char :: .id name :: .punct '=' :: t :: ts =>
      if constexpr.text = "constexpr".toList ∧ char.text = "char".toList then
        (referenceValue
          (getFieldSig ((t :: ts).takeWhile (· != .punct ';')))).map
            fun v => (name.text, v)
      else none
  | _ => none

/-- `Get-RefConstants`. -/
def getRefConstants (raw : List Token) : Consts :=
  ((raw.map Token.value).tails.filterMap refConstantAt).reverse

def lowered (t : Text) : Text := t.map Char.toLower

/-- `$consts[name]`: the keys of a PowerShell hashtable are compared
without regard to case. -/
def Consts.find (consts : Consts) (name : Text) : Option Int :=
  (List.find? (fun c => lowered c.1 == lowered name) consts).map Prod.snd

-- =================================================================== types

/-- `$ScalarTypes`. -/
def scalarTypes : Text := "VCBIWLD6UF".toList

/-- `$RefableTypes`. -/
def refableTypes : Text := "CBIWLD6UF".toList

/-- `$ArrayOnlyTypes`. -/
def arrayOnlyTypes : Text := "CBIW".toList

/-- `$ReturnTypes`. -/
def returnTypes : Text := "VLD6UF".toList

/-- A type of Vector's table, `Base` and `Ref`. -/
structure TypeClass where
  base : Char
  ref : Bool
  inTable : base ∈ if ref then refableTypes else scalarTypes
deriving DecidableEq

/-- `Get-TypeClass`; `none` is the one that is not valid. -/
def getTypeClass (v : Int) : Option TypeClass :=
  if v < -128 ∨ v > 255 then none
  else
    let u := ((v + 256) % 256).toNat
    if u ≥ 128 then
      if h : Char.ofNat (u - 128) ∈ refableTypes then
        some ⟨Char.ofNat (u - 128), true, h⟩
      else none
    else if h : Char.ofNat u ∈ scalarTypes then some ⟨Char.ofNat u, false, h⟩
    else none

def formatInt (v : Int) : Text :=
  if v < 0 then '-' :: format v.natAbs else format v.natAbs

/-- `$value` or `$problem` of `Resolve-TypeItem`. -/
def typeValue (consts : Consts) : Item → Except Text Int
  | .code value => .ok value.toNat
  | .tokens [.chr value] => .ok value.toNat
  | .tokens [.num value] => .ok value
  | .tokens [.id name] =>
      match consts.find name.text with
      | some v => .ok v
      | none =>
          if "kRef".toList <+: name.text then
            .error ("reference constant ".toList ++ name.text
              ++ " is not defined in this file as constexpr char ".toList
              ++ name.text ++ " = static_cast<char>('X' - 128)".toList)
          else .error ("identifier ".toList ++ name.text
            ++ " is not a known type constant".toList)
  | .tokens [.chr _, .punct '-', .num _] =>
      .error ("a reference type must be written with a named kRef constant "
        ++ "(kRefLong, kRefDword, kRefDouble), not as an inline expression").toList
  | .tokens toks =>
      .error ("unrecognised type expression: ".toList ++ getFieldText toks)

/-- `Resolve-TypeItem`: the class, or the problem. -/
def resolveTypeItem (consts : Consts) (item : Item) : Except Text TypeClass :=
  match typeValue consts item with
  | .error problem => .error problem
  | .ok v =>
      match getTypeClass v with
      | some cls => .ok cls
      | none =>
          .error ("type value ".toList ++ formatInt v
            ++ (" is not in Vector's type table (V C B I W L D 6 U F, or a "
              ++ "scalar type minus 128 for a reference)").toList)

end RestifyCapl.Export
