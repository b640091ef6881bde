import VarSubst.Json.Basic
import VarSubst.Json.Lexeme

/-!
# Reading JSON

A reader takes something from the front of a text. `readHead` reads a scalar or enters a list or an
object; `readItems` and `readMembers` are the two loops from which readers of lists and objects are
built; `readValue` reads any value. The problem reported is the first one in reading order: what
stands in the place of a value of another type is read before it is called wrong, but a list or an
object is not entered for that.
-/

namespace VarSubst.Json

abbrev Reader (α : Type) := (cs : List Char) → Except Problem (α × Rest cs)

namespace Rest

variable {cs : List Char} {c : Char} {r : Rest cs}

def trans (rest : Rest r.1) : Rest cs := ⟨rest.1, Nat.lt_trans rest.2 r.2⟩

def ofTail (rest : Tail r.1) : Rest cs := ⟨rest.1, Nat.lt_of_le_of_lt rest.2 r.2⟩

/-- What is left when reading went on from the character before `r`. -/
def ofBack (rest : Rest (c :: r.1)) : Rest cs := ⟨rest.1, Nat.lt_of_lt_of_le rest.2 r.2⟩

end Rest

namespace Reader

variable {α β : Type}

/-- The reader of a function on texts that takes something from every text it accepts. -/
def ofFunction (read : List Char → Except Problem (α × List Char))
    (length_lt : ∀ {cs a rest}, read cs = .ok (a, rest) → rest.length < cs.length) : Reader α :=
  fun cs =>
    match h : read cs with
    | .error p => .error p
    | .ok (a, rest) => .ok (a, ⟨rest, length_lt h⟩)

def fail (p : Problem) : Reader α := fun _ => .error p

def map (f : α → β) (read : Reader α) : Reader β := fun cs =>
  (read cs).map fun (a, rest) => (f a, rest)

/-- Reads a whole text, behind which only blanks may stand. -/
def run (read : Reader α) (text : String) : Except Problem α := do
  let (a, rest) ← read text.toList
  match next? rest.1 with
  | none => return a
  | some _ => throw .trailingCharacters

end Reader

/-! ## Scalars -/

/-- Reads a string behind its opening quote. -/
def readQuoted : Reader String :=
  .ofFunction (readCharacters pairedCodePoints []) readCharacters_length_lt

def readNumber : Reader Number := fun cs => do
  let (numeral, rest) ←
    Reader.ofFunction (readNumeral (.unexpectedEnd .value)) readNumeral_length_lt cs
  match numeral.value? with
  | some n => return (n, rest)
  | none => throw .numberOutOfRange

def startsNumber (c : Char) : Bool := c == '-' || c.isDigit

def readHead : Reader Head := fun cs =>
  match next? cs with
  | none => .error (.unexpectedEnd .value)
  | some (c, r) =>
    if c = '"' then (readQuoted r.1).map fun (s, rest) => (.string s, .trans rest)
    else if c = '[' then .ok (.list, r)
    else if c = '{' then .ok (.object, r)
    else if startsNumber c then
      (readNumber (c :: r.1)).map fun (n, rest) => (.number n, .ofBack rest)
    else if c = 'n' then
      (readWord ['u', 'l', 'l'] r.1).map fun rest => (.null, .ofTail rest)
    else if c = 't' then
      (readWord ['r', 'u', 'e'] r.1).map fun rest => (.boolean true, .ofTail rest)
    else if c = 'f' then
      (readWord ['a', 'l', 's', 'e'] r.1).map fun rest => (.boolean false, .ofTail rest)
    else .error .expectedValue

/-- Reads a value that `accept` takes; `wanted` says which these are. -/
def readAs {α : Type} (wanted : String) (accept : Head → Option α) : Reader α := fun cs => do
  let (head, rest) ← readHead cs
  match accept head with
  | some a => return (a, rest)
  | none => throw (.wrongType head wanted)

def readString (wanted : String) : Reader String :=
  readAs wanted fun
    | .string s => some s
    | _ => none

def readBoolean (wanted : String) : Reader Bool :=
  readAs wanted fun
    | .boolean b => some b
    | _ => none

/-- Reads an integer from 0 up to below `2 ^ 64`. -/
def readUInt64 (wanted : String) : Reader UInt64 := fun cs => do
  let (n, rest) ← readAs wanted (fun
    | .number (.integer n) => some n
    | _ => none) cs
  if n < 0 then throw (.wrongInteger n wanted)
  else return (UInt64.ofNat n.toNat, rest)

/-! ## Lists and objects -/

/-- What comes next in a list or an object that has been entered: an item, from `start` on, or the
end, with `rest` behind it. -/
inductive Next (cs : List Char) where
  | item (start : Tail cs)
  | closed (rest : Rest cs)

/-- Looks for the next item of a list; a comma has to stand before each but the first. -/
def nextItem (first : Bool) (cs : List Char) : Except Problem (Next cs) :=
  match next? cs with
  | none => .error (.unexpectedEnd .list)
  | some (c, r) =>
    if c = ']' then .ok (.closed r)
    else if first then .ok (.item (.whole cs))
    else if c = ',' then
      match next? r.1 with
      | none => .error (.unexpectedEnd .value)
      | some (d, _) =>
        if d = ']' then .error .trailingComma else .ok (.item (.ofRest r))
    else .error .expectedCommaOrBracket

/-- Looks for the next member of an object and enters its name. -/
def nextMember (first : Bool) (cs : List Char) : Except Problem (Next cs) :=
  match next? cs with
  | none => .error (.unexpectedEnd .object)
  | some (c, r) =>
    if c = '}' then .ok (.closed r)
    else if first then
      if c = '"' then .ok (.item (.ofRest r)) else .error .nameNotString
    else if c = ',' then
      match next? r.1 with
      | none => .error (.unexpectedEnd .value)
      | some (d, s) =>
        if d = '"' then .ok (.item (.trans (.ofRest s)))
        else if d = '}' then .error .trailingComma
        else .error .nameNotString
    else .error .expectedCommaOrBrace

def readColon (cs : List Char) : Except Problem (Rest cs) :=
  match next? cs with
  | none => .error (.unexpectedEnd .object)
  | some (c, r) => if c = ':' then .ok r else .error .expectedColon

/-- Reads the items that are left of a list; `before` are those already read, last one first. -/
def readItems {α : Type} (item : Reader α) {whole : List Char} (before : List α) (first : Bool)
    (cs : Tail whole) : Except Problem (List α × Rest whole) :=
  match nextItem first cs.1 with
  | .error p => .error p
  | .ok (.closed rest) => .ok (before.reverse, ⟨rest.1, Nat.lt_of_lt_of_le rest.2 cs.2⟩)
  | .ok (.item start) =>
    match item start.1 with
    | .error p => .error p
    | .ok (a, rest) =>
      have := rest.2
      have := start.2
      have := cs.2
      readItems item (a :: before) false ⟨rest.1, by omega⟩
termination_by cs.1.length

/-- Reads the members that are left of an object. After each name `field` chooses the reader of its
value in the light of what was read before, or refuses the member. -/
def readMembers {σ : Type} (field : σ → String → Except Problem (Reader σ)) {whole : List Char}
    (state : σ) (first : Bool) (cs : Tail whole) : Except Problem (σ × Rest whole) :=
  match nextMember first cs.1 with
  | .error p => .error p
  | .ok (.closed rest) => .ok (state, ⟨rest.1, Nat.lt_of_lt_of_le rest.2 cs.2⟩)
  | .ok (.item start) =>
    match readQuoted start.1 with
    | .error p => .error p
    | .ok (name, behindName) =>
      match field state name with
      | .error p => .error p
      | .ok read =>
        match readColon behindName.1 with
        | .error p => .error p
        | .ok behindColon =>
          match read behindColon.1 with
          | .error p => .error p
          | .ok (state, rest) =>
            have := rest.2
            have := behindColon.2
            have := behindName.2
            have := start.2
            have := cs.2
            readMembers field state false ⟨rest.1, by omega⟩
termination_by cs.1.length

/-- Reads a list behind its opening bracket. -/
def readList {α : Type} (item : Reader α) : Reader (List α) := fun cs =>
  readItems item [] true (.whole cs)

/-- Reads an object behind its opening brace, starting from `state`. -/
def readFields {σ : Type} (field : σ → String → Except Problem (Reader σ)) (state : σ) : Reader σ :=
  fun cs => readMembers field state true (.whole cs)

/-- Reads the members of an object behind its opening brace. -/
def readObject {α : Type} (value : Reader α) : Reader (List (String × α)) :=
  (readFields (fun before name => .ok (value.map fun a => (name, a) :: before)) []).map List.reverse

/-! ## Values -/

/-- Reads a value whose items and members, if it has any, are read by `list` and `object`. -/
def readValueWith (list : Reader (List Json)) (object : Reader (List (String × Json))) :
    Reader Json := fun cs => do
  let (head, rest) ← readHead cs
  match head with
  | .null => return (.null, rest)
  | .boolean b => return (.boolean b, rest)
  | .number n => return (.number n, rest)
  | .string s => return (.string s, rest)
  | .list => (list rest.1).map fun (items, rest) => (.array items, .trans rest)
  | .object => (object rest.1).map fun (members, rest) => (.object members, .trans rest)

/-- Reads a value in which at most `depth` lists and objects stand in one another. -/
def readValue : (depth : Nat) → Reader Json
  | 0 => readValueWith (.fail .nestedTooDeep) (.fail .nestedTooDeep)
  | depth + 1 => readValueWith (readList (readValue depth)) (readObject (readValue depth))

/-- How many lists and objects may stand in one another in a text. -/
def nestingLimit : Nat := 127

end VarSubst.Json
