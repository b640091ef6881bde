import VarSubst.Expansion
import VarSubst.Options.Basic
import VarSubst.Table

/-!
# Reports

A report tells what a pass over a configuration did, key by key in ascending order. It is put
together from the outcomes of the single keys, none of which depends on another.
-/

namespace VarSubst

/-- What became of one key of a configuration. -/
structure Outcome where
  value : String
  /-- Where the text came from that was expanded; none if both sources had nothing. -/
  source : Option Source
  /-- Whether an escape kept the text from being expanded. -/
  escaped : Bool
  events : List Event
  deriving DecidableEq, Repr

structure Resolved where
  key : String
  value : String
  source : Option Source
  deriving DecidableEq, Repr

/-- A reference that was cut, with the key of the configuration whose text was being expanded. -/
structure Truncation where
  origin : String
  key : String
  cause : Cut
  deriving DecidableEq, Repr

structure Report where
  resolved : List Resolved
  /-- The referenced keys that stood for nothing, each where it was first met. -/
  unresolved : List String
  escaped : List String
  truncated : List Truncation
  deriving DecidableEq, Repr

namespace Event

def unresolved? : Event → Option String
  | .unresolved key => some key
  | .cut _ _ => none

def truncation? (origin : String) : Event → Option Truncation
  | .unresolved _ => none
  | .cut key cause => some { origin, key, cause }

end Event

namespace Report

def ofOutcomes (outcomes : List (String × Outcome)) : Report where
  resolved := outcomes.map fun (key, o) => { key, value := o.value, source := o.source }
  unresolved := (outcomes.flatMap fun (_, o) => o.events.filterMap Event.unresolved?).eraseDups
  escaped := (outcomes.filter fun (_, o) => o.escaped).map (·.1)
  truncated := outcomes.flatMap fun (key, o) => o.events.filterMap (Event.truncation? key)

/-- Whether no reference was cut. -/
def isComplete (r : Report) : Bool := r.truncated.isEmpty

def resolvedCount (r : Report) : Nat := r.resolved.length

end Report

end VarSubst
