import VarSubst.Json.Basic
import VarSubst.Key
import VarSubst.Text.Quoted

/-!
# Configuration records

A record holds the configuration, which maps keys to texts, and whatever other fields came with it.
Keys are expected to be keys in the sense of `isKey`, but a record can hold others;
`Record.validate` finds them.
-/

namespace VarSubst

abbrev Config := Table String String

structure Record where
  parsed : Config := .empty
  extra : Table String Json := .empty
  deriving Inhabited, DecidableEq

/-- A name in a configuration that is no key. -/
structure InvalidKey where
  key : String
  deriving DecidableEq, Repr

def InvalidKey.message (e : InvalidKey) : String := "invalid key: " ++ Text.quoted e.key

namespace Record

def ofConfig (config : Config) : Record := { parsed := config }

/-- Adds an entry to the configuration, in place of one with the same key. -/
def withEntry (r : Record) (key value : String) : Record :=
  { r with parsed := r.parsed.insert key value }

def get? (r : Record) (key : String) : Option String := r.parsed.get? key

def size (r : Record) : Nat := r.parsed.size

def isEmpty (r : Record) : Bool := r.parsed.isEmpty

/-- Refuses the record for the first of its names that is no key. -/
def validate (r : Record) : Except InvalidKey Unit :=
  match r.parsed.keys.find? fun key => !isKey key with
  | some key => .error { key }
  | none => .ok ()

end Record

end VarSubst
