/-
The tokens of scripts/list-export-table.ps1: `Read-Literal` and
`Read-Tokens`.

The script walks an index over the text and calls `Substring` and
`IndexOf` from it; here the walk is structural, and what a token takes
beyond its first character is skipped by count. The text was decoded
from UTF-8, so it is a list of characters; a character of two UTF-16
units still gives the two `punct` tokens it gives there.
-/
import RestifyCapl.Ci.Release
import RestifyCapl.Core.Text

namespace RestifyCapl.Export

open Ci

-- ================================================================== tokens

/-- `[A-Za-z_]`. -/
def isIdentStart (c : Char) : Bool :=
  inRange 65 90 c || inRange 97 122 c || c == '_'

/-- `[A-Za-z0-9_]`. -/
def isIdentChar (c : Char) : Bool := isIdentStart c || isAsciiDigit c

/-- `[A-Za-z_][A-Za-z0-9_]*`, the whole text. -/
def isIdentifier : Text → Bool
  | [] => false
  | c :: t => isIdentStart c && t.all isIdentChar

/-- The value of an `id` token. -/
structure Ident where
  text : Text
  isIdent : isIdentifier text = true
deriving DecidableEq

/-- The value of a `pp` token. -/
structure Directive where
  text : Text
  hash : text.head? = some '#'
deriving DecidableEq

/-- `Kind` and `Value` of a token. A string is the bytes the compiler
stores, a character literal is one. -/
inductive Lexeme where
  | id (name : Ident)
  | str (value : Bytes)
  | chr (value : UInt8)
  | num (value : Nat)
  | punct (value : Char)
  | pp (value : Directive)
deriving DecidableEq

/-- `New-Token`. -/
structure Token where
  value : Lexeme
  line : Nat
deriving DecidableEq

/-- What the reader throws: the line and the text. -/
abbrev TokenError := Nat × Text

-- ================================================================ literals

/-- `[0-7]`. -/
def isOctal (c : Char) : Bool := inRange 48 55 c

/-- `[0-9A-Fa-f]`. -/
def isHexDigit (c : Char) : Bool :=
  isAsciiDigit c || inRange 65 70 c || inRange 97 102 c

def digitValue (c : Char) : Nat :=
  if isAsciiDigit c then c.toNat - 48
  else if inRange 65 70 c then c.toNat - 55
  else c.toNat - 87

/-- `[Convert]::ToInt32` and `[Convert]::ToInt64`. -/
def convert (base : Nat) (digits : Text) : Nat :=
  digits.foldl (fun n c => base * n + digitValue c) 0

/-- The `switch` of `Read-Literal`. -/
def simpleEscape (e : Char) : Option UInt8 :=
  if e = 'n' then some 10
  else if e = 't' then some 9
  else if e = 'r' then some 13
  else if e = 'a' then some 7
  else if e = 'b' then some 8
  else if e = 'f' then some 12
  else if e = 'v' then some 11
  else if e = '\\' then some 92
  else if e = '\'' then some 39
  else if e = '"' then some 34
  else if e = '?' then some 63
  else none

/-- The UTF-16 units of a character, each as it is printed. -/
def units (c : Char) : Text :=
  if c.toNat < 0x10000 then [c] else ['\uFFFD', '\uFFFD']

def unterminated : Text := "unterminated string or character literal".toList

/-- What follows a backslash: the byte, and the characters it takes. -/
def readEscape (line : Nat) : Text → Except TokenError (UInt8 × Nat)
  | [] => .error (line, unterminated)
  | e :: rest =>
      if isOctal e then
        let digits := ((e :: rest).take 3).takeWhile isOctal
        if convert 8 digits > 255 then
          .error (line,
            "octal escape sequence out of range (value above 0xFF)".toList)
        else .ok (UInt8.ofNat (convert 8 digits), digits.length)
      else if e = 'x' then
        -- every hex digit that follows belongs to the escape
        let digits := rest.takeWhile isHexDigit
        if digits = [] then .error (line, "\\x escape without hex digits".toList)
        else if (digits.dropWhile (· == '0')).length > 2 then
          .error (line,
            "hex escape sequence out of range (value above 0xFF)".toList)
        else .ok (UInt8.ofNat (convert 16 digits), 1 + digits.length)
      else
        match simpleEscape e with
        | some b => .ok (b, 1)
        | none =>
            .error (line, "unknown escape sequence \\".toList ++ (units e).take 1)

/-- The bytes before those of the rest, and one more character. -/
def withBytes (bs : Bytes) :
    Except TokenError (Bytes × Nat) → Except TokenError (Bytes × Nat)
  | .ok (rest, n) => .ok (bs ++ rest, n + 1)
  | .error e => .error e

/-- `Read-Literal`, after the opening quote: the bytes, and the
characters up to the closing quote and with it. -/
def readLiteral (quote : Char) (line : Nat) :
    Nat → Text → Except TokenError (Bytes × Nat)
  | _, [] => .error (line, unterminated)
  | skip + 1, _ :: rest => withBytes [] (readLiteral quote line skip rest)
  | 0, c :: rest =>
      if c = quote then .ok ([], 1)
      else if c = '\n' then .error (line, unterminated)
      else if c = '\\' then
        match readEscape line rest with
        | .error e => .error e
        | .ok (b, n) => withBytes [b] (readLiteral quote line n rest)
      else withBytes (String.utf8EncodeChar c) (readLiteral quote line 0 rest)

-- ================================================================= numbers

/-- The group of `^(0[xX][0-9a-fA-F]+|[0-9]+)[uUlL]*$`. -/
def numberDigits (word : Text) : Option Text :=
  let digits := word.rdropWhile fun c => "uUlL".toList.contains c
  match digits with
  | '0' :: x :: hex =>
      if (x = 'x' ∨ x = 'X') ∧ hex ≠ [] ∧ hex.all isHexDigit then some digits
      else if digits.all isAsciiDigit then some digits
      else none
  | _ => if digits ≠ [] ∧ digits.all isAsciiDigit then some digits else none

/-- The value of such digits. -/
def numberValue (digits : Text) : Nat :=
  if digits.length > 2 ∧ (digits.take 2 = ['0', 'x'] ∨ digits.take 2 = ['0', 'X'])
  then convert 16 (digits.drop 2)
  else if digits.length > 1 ∧ digits.head? = some '0' ∧ digits.all isOctal
  then convert 8 digits
  else convert 10 digits

def readNumber (line : Nat) (word : Text) : Except TokenError Nat :=
  match numberDigits word with
  | none => .error (line, "invalid numeric literal ".toList ++ word)
  | some digits =>
      if digits.length > 15 then
        .error (line, "numeric literal ".toList ++ word ++ " is out of range".toList)
      else .ok (numberValue digits)

-- ============================================================== directives

/-- Whether the line ends in a backslash; `back` is it from its end. -/
def isContinued : Text → Bool
  | '\r' :: '\\' :: _ => true
  | '\\' :: _ => true
  | _ => false

/-- What belongs to a directive after its `#`. -/
def directiveTail (back : Text) : Text → Text
  | [] => []
  | c :: rest =>
      if c = '\n' ∧ isContinued back = false then []
      else c :: directiveTail (c :: back) rest

theorem head_trim_hash (t : Text) : (trim ('#' :: t)).head? = some '#' := by
  have hkeep : ('#' :: t).dropWhile isWhiteSpace = '#' :: t := rfl
  show (trimEnd (('#' :: t).dropWhile isWhiteSpace)).head? = some '#'
  rw [hkeep]
  obtain ⟨after, hafter⟩ := List.rdropWhile_prefix isWhiteSpace ('#' :: t)
  cases hfront : trimEnd ('#' :: t) with
  | nil =>
      have hall := List.rdropWhile_eq_nil_iff.mp hfront
      exact absurd (hall '#' (List.mem_cons_self ..)) (by decide)
  | cons c front =>
      have hcons : (c :: front) ++ after = '#' :: t := hfront ▸ hafter
      rw [List.head?_cons, (List.cons.inj hcons).1]

def directiveOf (rest : Text) : Directive where
  text := trim ('#' :: directiveTail ['#'] rest)
  hash := head_trim_hash _

-- ================================================================== reader

/-- The place of `*/`. -/
def commentEnd : Text → Option Nat
  | [] => none
  | c :: rest =>
      if c = '*' ∧ rest.head? = some '/' then some 0
      else (commentEnd rest).map (· + 1)

theorem isIdentifier_word {c : Char} (h : isIdentStart c = true) (rest : Text) :
    isIdentifier (c :: rest.takeWhile isIdentChar) = true := by
  show (isIdentStart c && (rest.takeWhile isIdentChar).all isIdentChar) = true
  rw [h, Bool.true_and, List.all_eq_true]
  exact fun _ => List.mem_takeWhile_imp

/-- The identifier at a letter. -/
def identAt (c : Char) (rest : Text) (h : isIdentStart c = true) : Ident :=
  ⟨c :: rest.takeWhile isIdentChar, isIdentifier_word h rest⟩

def countNewlines (t : Text) : Nat := t.countP (· == '\n')

/-- `[0-9A-Za-z_.]`. -/
def isWordChar (c : Char) : Bool := isIdentChar c || c == '.'

def withTokens (ts : List Token) :
    Except TokenError (List Token) → Except TokenError (List Token)
  | .ok rest => .ok (ts ++ rest)
  | .error e => .error e

/-- `Read-Tokens`: `skip` characters of the token before are left, and
`bol` says that the line holds none yet. -/
def readTokens : Nat → Nat → Bool → Text → Except TokenError (List Token)
  | _, _, _, [] => .ok []
  | skip + 1, line, bol, _ :: rest => readTokens skip line bol rest
  | 0, line, bol, c :: rest =>
      if c = '\n' then readTokens 0 (line + 1) true rest
      else if isWhiteSpace c then readTokens 0 line bol rest
      else if c = '/' ∧ rest.head? = some '/' then
        readTokens (rest.takeWhile (· != '\n')).length line bol rest
      else if c = '/' ∧ rest.head? = some '*' then
        match commentEnd rest.tail with
        | none => .error (line, "unterminated block comment".toList)
        | some n =>
            let newlines := countNewlines (rest.tail.take n)
            readTokens (n + 3) (line + newlines) (bol || newlines != 0) rest
      else if c = '#' ∧ bol = true then
        let tail := directiveTail ['#'] rest
        withTokens [⟨.pp (directiveOf rest), line⟩]
          (readTokens tail.length (line + countNewlines tail) bol rest)
      else if c = '"' then
        match readLiteral '"' line 0 rest with
        | .error e => .error e
        | .ok (value, n) =>
            withTokens [⟨.str value, line⟩] (readTokens n line false rest)
      else if c = '\'' then
        match readLiteral '\'' line 0 rest with
        | .error e => .error e
        | .ok ([value], n) =>
            withTokens [⟨.chr value, line⟩] (readTokens n line false rest)
        | .ok _ =>
            .error (line,
              "character literal must hold exactly one character".toList)
      else if isAsciiDigit c then
        let word := (c :: rest).takeWhile isWordChar
        match readNumber line word with
        | .error e => .error e
        | .ok value =>
            withTokens [⟨.num value, line⟩]
              (readTokens (word.length - 1) line false rest)
      else if h : isIdentStart c = true then
        withTokens [⟨.id (identAt c rest h), line⟩]
          (readTokens (rest.takeWhile isIdentChar).length line false rest)
      else
        withTokens ((units c).map fun u => ⟨.punct u, line⟩)
          (readTokens 0 line false rest)

end RestifyCapl.Export
