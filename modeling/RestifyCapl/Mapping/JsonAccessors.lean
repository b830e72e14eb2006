/-
The typed reads at a path (mapping/json-accessors.cpp): resolve, then
convert the node. Each comes in two forms, over parsed tokens and over
path text; the store calls the first.

An out-parameter is the value of an `Except`: each of these functions
writes it just before it returns `Ok`.
-/
import RestifyCapl.Core.JsonPath
import RestifyCapl.Core.TypeConversion

namespace RestifyCapl

variable {F α : Type}

/-- `ResolveAndConvert`. -/
def resolveAndConvert (document : JsonValue F) (tokens : PathTokens)
    (convert : JsonValue F → Except Status α) : Except Status α :=
  match resolveTokens document tokens with
  | .error status => .error status
  | .ok node => convert node.value

/-- `ReadAtPath`. -/
def readAtPath (document : JsonValue F) (path : StringView)
    (read : JsonValue F → PathTokens → Except Status α) : Except Status α :=
  match parsePath path with
  | .error status => .error status
  | .ok tokens => read document tokens

/-- `ReadLongAt`. -/
def readLongAt [JsonDouble F] (document : JsonValue F)
    (tokens : PathTokens) : Except Status Int32 :=
  resolveAndConvert document tokens JsonValue.toLong

/-- `ReadDoubleAt`. -/
def readDoubleAt [JsonDouble F] (document : JsonValue F)
    (tokens : PathTokens) : Except Status F :=
  resolveAndConvert document tokens JsonValue.toDouble

/-- `ReadBoolAt`. -/
def readBoolAt (document : JsonValue F) (tokens : PathTokens) :
    Except Status Bool :=
  resolveAndConvert document tokens JsonValue.toBool

/-- The conversion `CountElementsAt` makes: `static_cast` of `size()`. -/
def countElements : JsonValue F → Except Status UInt32
  | .null => .error .nullValue
  | .array elements => .ok (UInt32.ofNat elements.length)
  | _ => .error .typeMismatch

/-- `CountElementsAt`. -/
def countElementsAt (document : JsonValue F) (tokens : PathTokens) :
    Except Status UInt32 :=
  resolveAndConvert document tokens countElements

end RestifyCapl
