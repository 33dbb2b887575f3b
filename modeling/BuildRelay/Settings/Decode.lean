/-
BuildRelay.Settings.Decode — reading records of settings from JSON.

A record is written as an object, whose unknown members are passed over, or as the list of its
fields. Fields that are left out keep their defaults, and the first fault in the order of the
document is the one reported.
-/
import BuildRelay.Options
import BuildRelay.Text.Quoted

namespace BuildRelay

/-- What a value was expected to be. -/
inductive Shape where
  | settings
  | bundleSettings
  | map
  | sequence
  | string
  | boolean
  deriving DecidableEq, Repr

/-- Why settings are refused. -/
inductive ConfigError where
  /-- A value of another type stands where `expected` should. -/
  | wrongType (found : Json) (expected : Shape)
  /-- A record given as a list has too many fields. -/
  | tooLong (length : Nat)
  deriving DecidableEq

namespace Shape

/-- How a message names the shape. -/
def describe : Shape → String
  | settings => "struct SolutionBuilderOptions"
  | bundleSettings => "struct TypescriptPluginOptions"
  | map => "a map"
  | sequence => "a sequence"
  | string => "a string"
  | boolean => "a boolean"

end Shape

namespace ConfigError

/-- How a message names a value that it did not expect. -/
def describe : Json → String
  | .null => "null"
  | .bool true => "boolean `true`"
  | .bool false => "boolean `false`"
  | .int n => "integer `" ++ toString n ++ "`"
  | .str s => "string " ++ Text.quoted s
  | .arr _ => "sequence"
  | .obj _ => "map"

/-- The text of the error. -/
def message : ConfigError → String
  | wrongType found expected => "invalid type: " ++ describe found ++ ", expected " ++ expected.describe
  | tooLong n => "invalid length " ++ toString n ++ ", expected fewer elements in array"

end ConfigError

namespace Decode

/-- The outcome of reading a value. -/
abbrev Result (α : Type) := Except ConfigError α

/-- Reads a bag of options. -/
def bag (j : Json) : Result Options :=
  match Options.ofJson? j with
  | some options => .ok options
  | none => .error (.wrongType j .map)

/-- Reads the members of an object, each with the same reader. -/
def mapOf {α : Type} (read : Json → Result α) : Json → Result (List (String × α))
  | .obj members => members.mapM fun e => do return (e.1, ← read e.2)
  | j => .error (.wrongType j .map)

/-- Reads the items of an array, each with the same reader. -/
def listOf {α : Type} (read : Json → Result α) : Json → Result (List α)
  | .arr items => items.mapM read
  | j => .error (.wrongType j .sequence)

/-- Reads a string. -/
def text : Json → Result String
  | .str s => .ok s
  | j => .error (.wrongType j .string)

/-- Reads a boolean. -/
def truth : Json → Result Bool
  | .bool b => .ok b
  | j => .error (.wrongType j .boolean)

/-- Reads a record whose fields have the given names. The function `set` reads one field into the
record; it leaves the record as it is for a name that is no field. -/
def record {α : Type} (shape : Shape) (fields : List String)
    (set : α → String → Json → Result α) (default : α) : Json → Result α
  | .obj members => members.foldlM (fun r e => set r e.1 e.2) default
  | .arr items => do
    let r ← (fields.zip items).foldlM (fun r e => set r e.1 e.2) default
    if fields.length < items.length then .error (.tooLong items.length) else .ok r
  | j => .error (.wrongType j shape)

end Decode

end BuildRelay
