import VarSubst.Json.Number
import VarSubst.Table

/-!
# JSON values

A value is kept as it is written: an object is the list of its members, in their order, and a name
may come more than once. `Json.merged` gives the value that such a text means, in which the last
member of a name counts and members are sorted by name.
-/

namespace VarSubst

inductive Json where
  | null
  | boolean (b : Bool)
  | number (n : Json.Number)
  | string (s : String)
  | array (items : List Json)
  | object (members : List (String × Json))
  deriving Inhabited

namespace Json

/-! ## Equality -/

mutual

/-- Whether two values are the same. -/
def same : Json → Json → Bool
  | .null, .null => true
  | .boolean a, .boolean b => a == b
  | .number m, .number n => m == n
  | .string s, .string t => s == t
  | .array items, .array items' => sameItems items items'
  | .object members, .object members' => sameMembers members members'
  | _, _ => false

def sameItems : List Json → List Json → Bool
  | [], [] => true
  | item :: items, item' :: items' => item.same item' && sameItems items items'
  | _, _ => false

def sameMembers : List (String × Json) → List (String × Json) → Bool
  | [], [] => true
  | (name, value) :: members, (name', value') :: members' =>
    name == name' && value.same value' && sameMembers members members'
  | _, _ => false

end

mutual

theorem same_iff : (a b : Json) → (a.same b ↔ a = b)
  | .null, b | .boolean _, b | .number _, b | .string _, b => by cases b <;> simp [same]
  | .array items, b => by cases b <;> simp [same, sameItems_iff items]
  | .object members, b => by cases b <;> simp [same, sameMembers_iff members]

theorem sameItems_iff : (items items' : List Json) → (sameItems items items' ↔ items = items')
  | [], items' => by cases items' <;> simp [sameItems]
  | item :: items, items' => by
    cases items' <;> simp [sameItems, same_iff item, sameItems_iff items]

theorem sameMembers_iff : (members members' : List (String × Json)) →
    (sameMembers members members' ↔ members = members')
  | [], members' => by cases members' <;> simp [sameMembers]
  | (name, value) :: members, members' => by
    cases members' <;>
      simp [sameMembers, same_iff value, sameMembers_iff members, Prod.ext_iff]

end

instance : DecidableEq Json := fun a b => decidable_of_iff _ (same_iff a b)

/-! ## Merging -/

mutual

/-- Keeps the last member of each name, at every depth, and sorts members by name. -/
def merged : Json → Json
  | .array items => .array (mergedItems items)
  | .object members => .object (Table.ofList (mergedMembers members)).entries
  | value => value

def mergedItems : List Json → List Json
  | [] => []
  | item :: items => item.merged :: mergedItems items

def mergedMembers : List (String × Json) → List (String × Json)
  | [] => []
  | (name, value) :: members => (name, value.merged) :: mergedMembers members

end

end Json

end VarSubst
