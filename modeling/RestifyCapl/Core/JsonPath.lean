/-
JSON Pointers (core/json-path.cpp): `ParsePath` splits a text into
decoded tokens, `ResolvePath` walks them down a document.

`ResolvePath` gives back a pointer into the document. A pointer is more
than the value it points to, so a node here is a position, the indices
that lead to it from the root, together with the value found there.
-/
import RestifyCapl.Core.CharConv
import RestifyCapl.Core.JsonValue

namespace RestifyCapl

open Lib

variable {F : Type}

/-- `PathTokens`. -/
abbrev PathTokens := List Bytes

/-- `const JsonValue*` into a document. -/
structure Node (F : Type) where
  position : List Nat
  value : JsonValue F

-- =============================================================== parsing

/-- `DecodeToken`: each escape is decoded once, left to right. -/
def decodeToken : Bytes → Option Bytes
  | [] => some []
  | [c] => if c ≠ ch '~' then some [c] else none
  | c :: next :: rest =>
      if c ≠ ch '~' then (decodeToken (next :: rest)).map (c :: ·)
      else if next = ch '1' then (decodeToken rest).map (ch '/' :: ·)
      else if next = ch '0' then (decodeToken rest).map (ch '~' :: ·)
      else none

/-- `ParsePath`: what lies between the slashes, token by token. -/
def parsePath (path : StringView) : Except Status PathTokens :=
  match path with
  | none => .error .invalidArgument
  | some [] => .ok []
  | some (c :: rest) =>
      if c ≠ ch '/' then .error .pathSyntaxError
      else
        match (rest.splitOn (ch '/')).mapM decodeToken with
        | none => .error .pathSyntaxError
        | some tokens => .ok tokens

/-- The loop of `ParsePath`, from `start` on: a token up to the next slash,
or the last one. -/
def parseTokens (tokens : PathTokens) (rest : Bytes) : Option PathTokens :=
  match decodeToken (rest.takeWhile (· != ch '/')) with
  | none => none
  | some token =>
      match _hdrop : rest.dropWhile (· != ch '/') with
      | [] => some (tokens ++ [token])
      | _ :: after => parseTokens (tokens ++ [token]) after
termination_by rest.length
decreasing_by
  have hle := (List.dropWhile_suffix (l := rest) (· != ch '/')).length_le
  rw [_hdrop] at hle
  exact hle

/-- `ParsePath` with its out parameter. -/
def parsePathInto (path : StringView) (out : PathTokens) :
    Status × PathTokens :=
  match path with
  | none => (.invalidArgument, out)
  | some [] => (.ok, [])
  | some (c :: rest) =>
      if c ≠ ch '/' then (.pathSyntaxError, out)
      else
        match parseTokens [] rest with
        | none => (.pathSyntaxError, out)
        | some tokens => (.ok, tokens)

-- ============================================================== resolving

/-- `ParseIndex`. -/
def parseIndex (token : Bytes) : Except Status UInt32 :=
  if token = [ch '-'] then .error .indexOutOfRange
  else if token.isEmpty
      || (decide (token.length > 1) && token.head? == some (ch '0')) then
    .error .typeMismatch
  else if !token.all isDigit then .error .typeMismatch
  else
    let result := fromCharsUnsigned 32 token
    if result.ec = .resultOutOfRange then .error .indexOutOfRange
    else if result.ec ≠ .none || !result.rest.isEmpty then
      .error .typeMismatch
    else .ok (UInt32.ofNat result.value)

/-- `find(token)` on an object: the first member with this key. -/
def findMember (token : Bytes) (members : List (Bytes × JsonValue F)) :
    Option (Nat × JsonValue F) :=
  match members.findIdx? fun m => m.1 == token with
  | none => none
  | some k => members[k]?.map fun m => (k, m.2)

/-- One round of `ResolvePath`'s loop: the child the token leads to. -/
def resolveToken (token : Bytes) (current : JsonValue F) :
    Except Status (Nat × JsonValue F) :=
  match current with
  | .object members =>
      match findMember token members with
      | none => .error .pathNotFound
      | some child => .ok child
  | .array elements =>
      match parseIndex token with
      | .error status => .error status
      | .ok index =>
          match elements[index.toNat]? with
          | none => .error .indexOutOfRange
          | some child => .ok (index.toNat, child)
  | _ => .error .typeMismatch

/-- The loop of `ResolvePath`, from a node on. -/
def resolveFrom (current : Node F) : PathTokens → Except Status (Node F)
  | [] => .ok current
  | token :: rest =>
      match resolveToken token current.value with
      | .error status => .error status
      | .ok (k, child) =>
          resolveFrom ⟨current.position ++ [k], child⟩ rest

/-- `ResolvePath` over tokens. -/
def resolveTokens (document : JsonValue F) (tokens : PathTokens) :
    Except Status (Node F) :=
  resolveFrom ⟨[], document⟩ tokens

/-- `ResolvePath` over path text. -/
def resolvePath (document : JsonValue F) (path : StringView) :
    Except Status (Node F) :=
  match parsePath path with
  | .error status => .error status
  | .ok tokens => resolveTokens document tokens

end RestifyCapl
