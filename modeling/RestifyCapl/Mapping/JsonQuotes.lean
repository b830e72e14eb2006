/-
`ConvertApostropheStrings` (mapping/json-quotes.cpp): apostrophe-quoted
strings to standard JSON, in one pass over the bytes with three states.
-/
import RestifyCapl.Core.Text

namespace RestifyCapl

inductive Scan where
  | outside
  | doubleQuoted
  | apostrophe
deriving DecidableEq, Repr

/-- The loop, from a state on. A backslash takes the byte after it along,
in both string states, unless the text ends there. -/
def convertFrom : Scan → Bytes → Bytes
  | _, [] => []
  | .outside, c :: rest =>
      if c = ch '\'' then ch '"' :: convertFrom .apostrophe rest
      else if c = ch '"' then c :: convertFrom .doubleQuoted rest
      else c :: convertFrom .outside rest
  | .doubleQuoted, [c] => [c]
  | .doubleQuoted, c :: next :: rest =>
      if c = ch '\\' then c :: next :: convertFrom .doubleQuoted rest
      else if c = ch '"' then c :: convertFrom .outside (next :: rest)
      else c :: convertFrom .doubleQuoted (next :: rest)
  | .apostrophe, [c] =>
      if c = ch '\'' then [ch '"']
      else if c = ch '"' then [ch '\\', ch '"']
      else [c]
  | .apostrophe, c :: next :: rest =>
      if c = ch '\\' then
        -- only \' is rewritten
        if next = ch '\'' then ch '\'' :: convertFrom .apostrophe rest
        else c :: next :: convertFrom .apostrophe rest
      else if c = ch '\'' then ch '"' :: convertFrom .outside (next :: rest)
      else if c = ch '"' then
        ch '\\' :: ch '"' :: convertFrom .apostrophe (next :: rest)
      else c :: convertFrom .apostrophe (next :: rest)

/-- `ConvertApostropheStrings`. It has no error of its own. -/
def convertApostropheStrings (text : Bytes) : Except Status Bytes :=
  .ok (convertFrom .outside text)

end RestifyCapl
