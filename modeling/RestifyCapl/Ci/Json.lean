/-
JSON between the programs of the release workflows: what GitHub answers,
what jq makes of it, and what PowerShell reads back. A file of JSON is the
value in it; that `ConvertFrom-Json` reads the value jq wrote is theirs.

A number is its literal, which no filter below computes with.
-/
import RestifyCapl.Ci.Text
import RestifyCapl.Lib.Assoc

namespace RestifyCapl.Ci

open Lib

inductive Json where
  | null
  | bool (b : Bool)
  | num (literal : Text)
  | str (t : Text)
  | arr (items : List Json)
  | obj (members : List (Text × Json))

namespace Json

def ofText? : Option Text → Json
  | none => .null
  | some t => .str t

-- ====================================================================== jq

/-- `.name`: `null` where the object has no such member; no value where
jq stops. -/
def field (name : Text) : Json → Option Json
  | .null => some .null
  | .obj members => some ((members.lookup name).getD .null)
  | _ => none

/-- `.first.second` and so on. -/
def path (names : List Text) (v : Json) : Option Json :=
  names.foldlM (fun v name => v.field name) v

/-- `.[]`. -/
def each : Json → Option (List Json)
  | .arr items => some items
  | .obj members => some (members.map Prod.snd)
  | _ => none

/-- `// null`, which takes an error for no value as well. -/
def orNull : Option Json → Json
  | none => .null
  | some .null => .null
  | some (.bool false) => .null
  | some v => v

-- ============================================================== PowerShell

/-- `$h[name]`, of a hashtable. -/
def item (name : Text) (members : List (Text × Json)) : Json :=
  (members.lookup name).getD .null

/-- `ContainsKey`. -/
def containsKey (name : Text) (members : List (Text × Json)) : Bool :=
  (members.lookup name).isSome

/-- What a variable holds after `ConvertFrom-Json`: an array comes out of
the pipeline item by item, so one item stands for itself. -/
def converted : Json → Json
  | .arr [item] => item
  | v => v

/-- `-is [string]`, where `ConvertFrom-Json` makes a `DateTime` of some
texts. -/
def isString (date : Text → Bool) : Json → Bool
  | .str t => !date t
  | _ => false

def isNull : Json → Bool
  | .null => true
  | _ => false

/-- The text of a string. -/
def text : Json → Text
  | .str t => t
  | _ => []

/-- The text of a string that may be `$null`. -/
def text? : Json → Option Text
  | .str t => some t
  | _ => none

/-- The texts of an array that may be `$null`. -/
def texts? : Json → Option (List Text)
  | .arr items => some (items.map text)
  | _ => none

/-- An array of strings. -/
def isStrings (date : Text → Bool) : Json → Bool
  | .arr items => items.all (isString date)
  | _ => false

-- ================================================================== lemmas

variable {date : Text → Bool} {members : List (Text × Json)}

@[simp] theorem isString_str (t : Text) : isString date (.str t) = !date t := rfl

@[simp] theorem text_str (t : Text) : text (.str t) = t := rfl

@[simp] theorem text?_ofText? (t : Option Text) : text? (ofText? t) = t := by
  cases t <;> rfl

@[simp] theorem isNull_ofText? (t : Option Text) :
    isNull (ofText? t) = t.isNone := by
  cases t <;> rfl

theorem texts?_strs (ts : List Text) :
    texts? (.arr (ts.map .str)) = some ts := by
  show some ((ts.map .str).map text) = some ts
  rw [List.map_map]
  exact congrArg some (List.map_id ts)

theorem isStrings_strs (ts : List Text) :
    isStrings date (.arr (ts.map .str)) = ts.all fun t => !date t := by
  show (ts.map .str).all (isString date) = _
  rw [List.all_map]
  rfl

end Json

end RestifyCapl.Ci
