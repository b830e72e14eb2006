/-
What the vendored lexer makes of a string's text (`scan_string` and
`get_codepoint` of include/vendor/json.hpp): it reads from behind the
opening quote to the closing one and decodes the escapes on the way.
Bytes from 0x80 on are taken as they are; that they form UTF-8, which
the lexer checks besides, is not part of the decoding.
-/
import RestifyCapl.Core.Text

namespace RestifyCapl

/-- The value of a hexadecimal digit. -/
def hexDigit (c : UInt8) : Option Nat :=
  if ch '0' ≤ c ∧ c ≤ ch '9' then some (c.toNat - 0x30)
  else if ch 'A' ≤ c ∧ c ≤ ch 'F' then some (c.toNat - 0x37)
  else if ch 'a' ≤ c ∧ c ≤ ch 'f' then some (c.toNat - 0x57)
  else none

/-- `get_codepoint`: four digits. -/
def getCodepoint (a b c d : UInt8) : Option Nat := do
  let a ← hexDigit a
  let b ← hexDigit b
  let c ← hexDigit c
  let d ← hexDigit d
  some (a * 0x1000 + b * 0x100 + c * 0x10 + d)

def isHighSurrogate (codepoint : Nat) : Bool :=
  0xD800 ≤ codepoint && codepoint ≤ 0xDBFF

def isLowSurrogate (codepoint : Nat) : Bool :=
  0xDC00 ≤ codepoint && codepoint ≤ 0xDFFF

/-- The code point of a surrogate pair. -/
def surrogatePair (codepoint1 codepoint2 : Nat) : Nat :=
  codepoint1 * 0x400 + codepoint2 - 0x35FDC00

/-- A code point, as bytes. -/
def utf8Bytes (codepoint : Nat) : Bytes :=
  if codepoint < 0x80 then [UInt8.ofNat codepoint]
  else if codepoint ≤ 0x7FF then
    [UInt8.ofNat (0xC0 ||| codepoint >>> 6),
      UInt8.ofNat (0x80 ||| codepoint &&& 0x3F)]
  else if codepoint ≤ 0xFFFF then
    [UInt8.ofNat (0xE0 ||| codepoint >>> 12),
      UInt8.ofNat (0x80 ||| codepoint >>> 6 &&& 0x3F),
      UInt8.ofNat (0x80 ||| codepoint &&& 0x3F)]
  else
    [UInt8.ofNat (0xF0 ||| codepoint >>> 18),
      UInt8.ofNat (0x80 ||| codepoint >>> 12 &&& 0x3F),
      UInt8.ofNat (0x80 ||| codepoint >>> 6 &&& 0x3F),
      UInt8.ofNat (0x80 ||| codepoint &&& 0x3F)]

/-- The byte a two-character escape stands for. -/
def simpleEscape (c : UInt8) : Option UInt8 :=
  if c = ch '"' then some (ch '"')
  else if c = ch '\\' then some (ch '\\')
  else if c = ch '/' then some (ch '/')
  else if c = ch 'b' then some 0x08
  else if c = ch 'f' then some 0x0C
  else if c = ch 'n' then some 0x0A
  else if c = ch 'r' then some 0x0D
  else if c = ch 't' then some 0x09
  else none

/-- Bytes added in front of what the rest of a string gives. -/
def addTo (bytes : Bytes) (rest : Option (Bytes × Bytes)) :
    Option (Bytes × Bytes) :=
  rest.map fun r => (bytes ++ r.1, r.2)

/-- `scan_string`, from behind the opening quote: the string's value and
the text behind the closing quote. -/
def scanString : Bytes → Option (Bytes × Bytes)
  | [] => none
  | c :: rest =>
      if c = ch '"' then some ([], rest)
      else if c = ch '\\' then
        match rest with
        | [] => none
        | e :: rest =>
            if e = ch 'u' then
              match rest with
              | a :: b :: c :: d :: rest =>
                  match getCodepoint a b c d with
                  | none => none
                  | some codepoint1 =>
                      if isHighSurrogate codepoint1 then
                        match rest with
                        | x :: y :: a :: b :: c :: d :: rest =>
                            if x = ch '\\' ∧ y = ch 'u' then
                              match getCodepoint a b c d with
                              | none => none
                              | some codepoint2 =>
                                  if isLowSurrogate codepoint2 then
                                    addTo (utf8Bytes (surrogatePair codepoint1
                                      codepoint2)) (scanString rest)
                                  else none
                            else none
                        | _ => none
                      else if isLowSurrogate codepoint1 then none
                      else addTo (utf8Bytes codepoint1) (scanString rest)
              | _ => none
            else
              match simpleEscape e with
              | none => none
              | some v => addTo [v] (scanString rest)
      else if c < 0x20 then none
      else addTo [c] (scanString rest)

end RestifyCapl
