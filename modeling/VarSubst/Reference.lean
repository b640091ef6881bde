import VarSubst.Key

/-!
# References

A reference names a key inside a text, in one of three forms: bare (`$KEY`), braced (`${KEY}`), and
braced with a default (`${KEY:-text}` or `${KEY-text}`). `Reference.ofPrefix?` reads the reference
that a text begins with, and `Reference.render` writes it back.
-/

namespace VarSubst

/-- How a reference is written; a default may follow `:-` or a lone `-`. -/
inductive Form where
  | bare
  | braced
  | withDefault (colon : Bool) (body : String)
  deriving DecidableEq, Repr

structure Reference where
  key : String
  form : Form
  deriving DecidableEq, Repr

/-- The characters of a default other than braces. -/
def isDefaultChar (c : Char) : Bool := c.isAlphanum || c == '_' || c == '-' || c == '$' || c == ':'

namespace Reference

/-- The text of the default, which may hold references of its own. -/
def default? (r : Reference) : Option String :=
  match r.form with
  | .withDefault _ body => some body
  | _ => none

def render (r : Reference) : List Char :=
  match r.form with
  | .bare => '$' :: r.key.toList
  | .braced => '$' :: '{' :: (r.key.toList ++ ['}'])
  | .withDefault true body => '$' :: '{' :: (r.key.toList ++ ':' :: '-' :: (body.toList ++ ['}']))
  | .withDefault false body => '$' :: '{' :: (r.key.toList ++ '-' :: (body.toList ++ ['}']))

/-- Reads on in a default inside `depth` open braces, up to the brace that closes the reference;
`before` is what was read, last character first. -/
def readBody? (before : List Char) : Nat → List Char → Option String
  | _, [] => none
  | 0, '}' :: _ => some (String.ofList before.reverse)
  | depth + 1, '}' :: cs => readBody? ('}' :: before) depth cs
  | depth, c :: cs =>
    if c = '{' then readBody? (c :: before) (depth + 1) cs
    else if isDefaultChar c then readBody? (c :: before) depth cs
    else none

/-- Reads a default, which is not empty. -/
def readDefault? (cs : List Char) : Option String :=
  (readBody? [] 0 cs).filter (· ≠ "")

/-- The form that the text after a braced key gives its reference. -/
def readForm? : List Char → Option Form
  | '}' :: _ => some .braced
  | ':' :: '-' :: cs => (readDefault? cs).map (.withDefault true)
  | '-' :: cs => (readDefault? cs).map (.withDefault false)
  | _ => none

/-- The key that stands first in a text: its longest run of key characters, which is not empty. -/
def readKey? (cs : List Char) : Option String :=
  match cs.takeWhile isKeyChar with
  | [] => none
  | key => some (String.ofList key)

/-- The reference that a text begins with. -/
def ofPrefix? : List Char → Option Reference
  | '$' :: '{' :: cs => do
    let key ← readKey? cs
    let form ← readForm? (cs.dropWhile isKeyChar)
    return { key, form }
  | '$' :: cs => (readKey? cs).map fun key => { key, form := .bare }
  | _ => none

theorem render_ne_nil (r : Reference) : r.render ≠ [] := by
  unfold render
  split <;> simp

end Reference

end VarSubst
