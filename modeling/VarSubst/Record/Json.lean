import VarSubst.Record.Basic
import VarSubst.Json.Reader
import VarSubst.Json.Writer

/-!
# Records as JSON

A record is written as an object with the configuration in the field `parsed`, in front of the other
fields. In reading, the fields come in any order; `parsed` may be missing, but it must not come
twice, while of other fields and of keys inside `parsed` the last one counts.
-/

namespace VarSubst

/-- A text that should be a configuration record and is none. -/
structure InvalidRecord where
  problem : Json.Problem
  deriving DecidableEq

def InvalidRecord.message (e : InvalidRecord) : String :=
  "invalid config record: " ++ e.problem.message

namespace Record

/-- What has been read of a record; the last of the other fields comes first. -/
structure Fields where
  parsed? : Option Config := none
  extra : List (String × Json) := []

namespace Fields

def toRecord (f : Fields) : Record where
  parsed := f.parsed?.getD .empty
  extra := .ofList (Json.mergedMembers f.extra.reverse)

end Fields

open Json

/-- Reads the configuration, all of whose values are strings. -/
def readConfig : Reader Config := fun cs => do
  let (head, rest) ← readHead cs
  match head with
  | .object =>
    (readObject (readString "a string") rest.1).map fun (entries, rest) =>
      (Table.ofList entries, .trans rest)
  | head => throw (.wrongType head "a map")

/-- Chooses the reader of a field. The record itself is one of the objects that stand in one
another, so other fields may nest one level less than a text. -/
def readField (f : Fields) (name : String) : Except Problem (Reader Fields) :=
  if name = "parsed" then
    if f.parsed?.isSome then .error (.duplicateField name)
    else .ok (readConfig.map fun config => { f with parsed? := some config })
  else
    .ok ((readValue (nestingLimit - 1)).map fun value =>
      { f with extra := (name, value) :: f.extra })

/-- Reads a record from the front of a text. -/
def reader : Reader Record := fun cs => do
  let (head, rest) ← readHead cs
  match head with
  | .object =>
    (readFields readField {} rest.1).map fun (fields, rest) => (fields.toRecord, .trans rest)
  | head => throw (.wrongType head "struct ParsedConfig")

/-- Reads a record from a whole text. -/
def ofJson? (text : String) : Except InvalidRecord Record :=
  match reader.run text with
  | .ok r => .ok r
  | .error problem => .error { problem }

def renderConfig (config : Config) : List Char :=
  Json.renderObject (config.entries.map fun (key, value) =>
    Json.renderMember key (Json.renderString value))

def render (r : Record) : List Char :=
  Json.renderObject
    (Json.renderMember "parsed" (renderConfig r.parsed) :: Json.renderMembers r.extra.entries)

/-- The compact JSON text of a record. -/
def toJson (r : Record) : String := String.ofList r.render

end Record

end VarSubst
