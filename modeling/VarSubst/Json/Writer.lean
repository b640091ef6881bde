import VarSubst.Json.Basic

/-!
# Writing JSON

The compact form of a value: no blanks, members in their order, and strings in which only quotes,
backslashes and control characters are escaped.
-/

namespace VarSubst.Json

/-- A character inside a string. Control characters without an escape of one letter are written by
code point, in four lower-case digits. -/
def renderChar (c : Char) : List Char :=
  match c with
  | '"' => ['\\', '"']
  | '\\' => ['\\', '\\']
  | '\x08' => ['\\', 'b']
  | '\x0c' => ['\\', 'f']
  | '\n' => ['\\', 'n']
  | '\r' => ['\\', 'r']
  | '\t' => ['\\', 't']
  | c =>
    if c.toNat < 0x20 then
      ['\\', 'u', '0', '0', Nat.digitChar (c.toNat / 16), Nat.digitChar (c.toNat % 16)]
    else [c]

def renderString (s : String) : List Char := '"' :: (s.toList.flatMap renderChar ++ ['"'])

/-- Puts commas between the written forms of items. -/
def separated : List (List Char) → List Char
  | [] => []
  | [item] => item
  | item :: items => item ++ ',' :: separated items

def renderMember (name : String) (value : List Char) : List Char :=
  renderString name ++ ':' :: value

def renderList (items : List (List Char)) : List Char := '[' :: (separated items ++ [']'])

def renderObject (members : List (List Char)) : List Char := '{' :: (separated members ++ ['}'])

mutual

def render : Json → List Char
  | .null => ['n', 'u', 'l', 'l']
  | .boolean true => ['t', 'r', 'u', 'e']
  | .boolean false => ['f', 'a', 'l', 's', 'e']
  | .number n => n.render
  | .string s => renderString s
  | .array items => renderList (renderItems items)
  | .object members => renderObject (renderMembers members)

def renderItems : List Json → List (List Char)
  | [] => []
  | item :: items => item.render :: renderItems items

def renderMembers : List (String × Json) → List (List Char)
  | [] => []
  | (name, value) :: members => renderMember name value.render :: renderMembers members

end

end VarSubst.Json
