import VarSubst.Options.Basic
import VarSubst.Json.Skipper
import VarSubst.Json.Writer

/-!
# Options as JSON

Options are an object with the fields `envFirst` and `maxDepth`, either of which may be missing and
neither of which may come twice; other fields are passed over. They may also be a list of the two
values in this order, of which the last or both may be missing.
-/

namespace VarSubst

/-- A text that should be options and is none. -/
structure InvalidOptions where
  problem : Json.Problem
  deriving DecidableEq

def InvalidOptions.message (e : InvalidOptions) : String :=
  "invalid options: " ++ e.problem.message

namespace Options

/-- What has been read of options. -/
structure Fields where
  environmentFirst? : Option Bool := none
  maxDepth? : Option UInt64 := none

def Fields.toOptions (f : Fields) : Options where
  environmentFirst := f.environmentFirst?.getD ({} : Options).environmentFirst
  maxDepth := f.maxDepth?.getD ({} : Options).maxDepth

open Json

def readEnvironmentFirst : Reader Bool := readBoolean "a boolean"

def readMaxDepth : Reader UInt64 := readUInt64 "usize"

/-- Chooses the reader of a field; one that is not known is passed over. -/
def readField (f : Fields) (name : String) : Except Problem (Reader Fields) :=
  if name = "envFirst" then
    if f.environmentFirst?.isSome then .error (.duplicateField name)
    else .ok (readEnvironmentFirst.map fun b => { f with environmentFirst? := some b })
  else if name = "maxDepth" then
    if f.maxDepth?.isSome then .error (.duplicateField name)
    else .ok (readMaxDepth.map fun n => { f with maxDepth? := some n })
  else .ok (skipValue.map fun _ => f)

/-- Reads the end of a list in which nothing more is expected. -/
def readListEnd (cs : List Char) : Except Problem (Rest cs) :=
  match next? cs with
  | none => .error (.unexpectedEnd .list)
  | some (c, r) =>
    if c = ']' then .ok r
    else if c = ',' ∧ (next? r.1).any (·.1 = ']') then .error .trailingComma
    else .error .trailingCharacters

/-- Reads options behind the opening bracket of a list. -/
def readPositional : Reader Fields := fun cs => do
  match ← nextItem true cs with
  | .closed rest => return ({}, rest)
  | .item start =>
    let (b, behindFirst) ← readEnvironmentFirst start.1
    let f : Fields := { environmentFirst? := some b }
    match ← nextItem false behindFirst.1 with
    | .closed rest => return (f, ⟨rest.1, by
        have := rest.2; have := behindFirst.2; have := start.2; omega⟩)
    | .item second =>
      let (n, behindSecond) ← readMaxDepth second.1
      let rest ← readListEnd behindSecond.1
      return ({ f with maxDepth? := some n }, ⟨rest.1, by
        have := rest.2; have := behindSecond.2; have := second.2
        have := behindFirst.2; have := start.2; omega⟩)

/-- Reads options from the front of a text. -/
def reader : Reader Options := fun cs => do
  let (head, rest) ← readHead cs
  match head with
  | .object =>
    (readFields readField {} rest.1).map fun (f, rest) => (f.toOptions, .trans rest)
  | .list => (readPositional rest.1).map fun (f, rest) => (f.toOptions, .trans rest)
  | head => throw (.wrongType head "struct ExpandOptions")

/-- Reads options from a whole text. -/
def ofJson? (text : String) : Except InvalidOptions Options :=
  match reader.run text with
  | .ok o => .ok o
  | .error problem => .error { problem }

def render (o : Options) : List Char :=
  renderObject [
    renderMember "envFirst" (Json.boolean o.environmentFirst).render,
    renderMember "maxDepth" (Json.number (.integer o.maxDepth.toNat)).render]

/-- The compact JSON text of options. -/
def toJson (o : Options) : String := String.ofList o.render

end Options

end VarSubst
