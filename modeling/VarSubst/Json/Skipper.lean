import VarSubst.Json.Reader

/-!
# Skipping JSON values

A value that nobody asks for is passed over: its syntax is checked, but not whether surrogates come
in pairs, whether numbers are in range or how deep it nests. The lists and objects that are open are
kept in a list, the innermost one first.
-/

namespace VarSubst.Json

inductive Bracket where
  | list
  | object
  deriving DecidableEq, Repr

namespace Bracket

def closing : Bracket → Char
  | .list => ']'
  | .object => '}'

/-- The problem where a text ends in front of a comma or the closing bracket. -/
def unfinished : Bracket → Problem
  | .list => .unexpectedEnd .list
  | .object => .unexpectedEnd .object

/-- The problem where neither a comma nor the closing bracket follows an item. -/
def expected : Bracket → Problem
  | .list => .expectedCommaOrBracket
  | .object => .expectedCommaOrBrace

end Bracket

def skipQuoted (cs : List Char) : Except Problem (Rest cs) :=
  (Reader.ofFunction (readCharacters anyUnits []) readCharacters_length_lt cs).map (·.2)

def skipNumber (cs : List Char) : Except Problem (Rest cs) :=
  (Reader.ofFunction (readNumeral .invalidNumber) readNumeral_length_lt cs).map (·.2)

/-- Passes over a scalar or enters a list or an object. -/
def skipHead (cs : List Char) : Except Problem (Option Bracket × Rest cs) :=
  match next? cs with
  | none => .error (.unexpectedEnd .value)
  | some (c, r) =>
    if c = '"' then (skipQuoted r.1).map fun rest => (none, .trans rest)
    else if c = '[' then .ok (some .list, r)
    else if c = '{' then .ok (some .object, r)
    else if startsNumber c then (skipNumber (c :: r.1)).map fun rest => (none, .ofBack rest)
    else if c = 'n' then (readWord ['u', 'l', 'l'] r.1).map fun rest => (none, .ofTail rest)
    else if c = 't' then (readWord ['r', 'u', 'e'] r.1).map fun rest => (none, .ofTail rest)
    else if c = 'f' then
      (readWord ['a', 'l', 's', 'e'] r.1).map fun rest => (none, .ofTail rest)
    else .error .expectedValue

/-- Passes over what stands before the value of an item: in an object, its name and a colon. -/
def skipName (b : Bracket) (cs : List Char) : Except Problem (Tail cs) :=
  match b with
  | .list => .ok (.whole cs)
  | .object =>
    match next? cs with
    | none => .error (.unexpectedEnd .object)
    | some (c, r) =>
      if c = '"' then do
        let name ← skipQuoted r.1
        let colon ← readColon name.1
        return .trans (.trans (.ofRest colon))
      else .error .nameNotString

/-- Where to go on: behind everything that was open, or at the value of another item. -/
inductive Onward (cs : List Char) where
  | done (rest : Tail cs)
  | value (opened : List Bracket) (start : Tail cs)

namespace Onward

def weaken {cs : List Char} {r : Rest cs} : Onward r.1 → Onward cs
  | .done rest => .done (.trans rest)
  | .value opened start => .value opened (.trans start)

end Onward

/-- Goes on behind a value, or behind an opening bracket if `first`: closes brackets for as long as
they close, and looks for the next item of what is still open then. -/
def skipClosing (first : Bool) : (opened : List Bracket) → (cs : List Char) →
    Except Problem (Onward cs)
  | [], cs => .ok (.done (.whole cs))
  | b :: opened, cs =>
    match next? cs with
    | none => .error b.unfinished
    | some (c, r) =>
      if c = b.closing then (skipClosing false opened r.1).map .weaken
      else if first then (skipName b cs).map fun start => .value (b :: opened) start
      else if c = ',' then
        (skipName b r.1).map fun start => .weaken (.value (b :: opened) start)
      else .error b.expected

/-- Passes over a value and whatever is left of the lists and objects around it. -/
def skipFrom {whole : List Char} (opened : List Bracket) (cs : Tail whole) :
    Except Problem (Rest whole) :=
  match skipHead cs.1 with
  | .error p => .error p
  | .ok (entered, r) =>
    match skipClosing entered.isSome (entered.toList ++ opened) r.1 with
    | .error p => .error p
    | .ok (.done rest) =>
      .ok ⟨rest.1, by have := rest.2; have := r.2; have := cs.2; omega⟩
    | .ok (.value opened start) =>
      have := start.2
      have := r.2
      have := cs.2
      skipFrom opened ⟨start.1, by omega⟩
termination_by cs.1.length

def skipValue : Reader Unit := fun cs =>
  (skipFrom [] (.whole cs)).map fun rest => ((), rest)

end VarSubst.Json
