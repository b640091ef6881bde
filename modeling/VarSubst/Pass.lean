import VarSubst.Escape
import VarSubst.Record.Basic
import VarSubst.Report
import VarSubst.Store

/-!
# Passes over a record

A pass expands the text of every key of a record and then writes the results to the record and to
the store. All texts are looked up in the record and the store as they were before the pass. The
lenient pass (`Record.expand`) always succeeds; the strict pass (`Record.expandStrictly`) refuses a
record with a name that is no key and a record in which a reference would be cut, and then nothing
is written.
-/

namespace VarSubst

/-- The text that a source has under a key. -/
def Source.get? {σ : Type} [Store σ] (config : Config) (store : σ) : Source → String → Option String
  | .config, key => config.get? key
  | .environment, key => Store.get? store key

namespace Config

variable {σ : Type} [Store σ]

/-- The text that a key stands for, and where it was found: in the first source in order of
precedence that has a text other than the empty one. -/
def lookup (config : Config) (store : σ) (options : Options) (key : String) :
    Option (Source × String) :=
  options.precedence.findSome? fun source =>
    match source.get? config store key with
    | some value => if value = "" then none else some (source, value)
    | none => none

/-- What references see that are looked up in a configuration and a store. -/
def scope (config : Config) (store : σ) (options : Options) : Scope where
  value? key := (config.lookup store options key).map (·.2)
  maxDepth := options.maxDepth

/-- The expansion of a text that belongs to no key. -/
def interpolate (config : Config) (store : σ) (options : Options) (text : String) : String :=
  String.ofList ((config.scope store options).expand [] text).text

/-- The outcome for a key whose configured text is `raw`. An escape in the configured text is
applied to the text found by precedence. -/
def outcome (config : Config) (store : σ) (options : Options) (key raw : String) : Outcome :=
  let found := config.lookup store options key
  let value := (found.map (·.2)).getD raw
  let source := found.map (·.1)
  match Escape.ofText? raw with
  | some rule => { value := rule.apply value, source, escaped := true, events := [] }
  | none =>
    let e := (config.scope store options).expand [key] value
    { value := String.ofList e.text, source, escaped := false, events := e.events }

/-- The outcome for every key. -/
def outcomes (config : Config) (store : σ) (options : Options) : Table String Outcome :=
  config.map (config.outcome store options)

end Config

/-- The results of a pass. -/
structure Pass (σ : Type) where
  record : Record
  store : σ
  report : Report

/-- Why a strict pass refuses a record. -/
inductive Refusal where
  | invalidKey (e : InvalidKey)
  | cycle (key : String) (path : List String)
  | depth (key : String) (limit : UInt64)
  deriving DecidableEq, Repr

namespace Refusal

def ofTruncation (t : Truncation) : Refusal :=
  match t.cause with
  | .cycle path => .cycle t.key path
  | .depth limit => .depth t.key limit

def message : Refusal → String
  | .invalidKey e => "domain error: " ++ e.message
  | .cycle key path =>
    "cyclic reference to " ++ key ++ " (via " ++ String.intercalate " -> " path ++ ")"
  | .depth key limit =>
    "reference to " ++ key ++ " nested deeper than " ++ toString limit.toNat ++ " levels"

end Refusal

namespace Record

variable {σ : Type} [Store σ]

/-- Expands a record. Cut references and keys that stand for nothing leave nothing behind. -/
def expand (record : Record) (store : σ) (options : Options) : Pass σ :=
  let outcomes := record.parsed.outcomes store options
  let parsed := outcomes.map fun _ o => o.value
  { record := { record with parsed }
    store := Store.setAll store parsed.entries
    report := .ofOutcomes outcomes.entries }

/-- Expands a record, or refuses it for its first name that is no key or else for the first
reference that would be cut. -/
def expandStrictly (record : Record) (store : σ) (options : Options) :
    Except Refusal (Record × σ) :=
  match record.validate with
  | .error e => .error (.invalidKey e)
  | .ok () =>
    let pass := record.expand store options
    match pass.report.truncated with
    | [] => .ok (pass.record, pass.store)
    | t :: _ => .error (.ofTruncation t)

end Record

end VarSubst
