import VarSubst.Text.Unprintable
import VarSubst.Text.Combining
import VarSubst.Text.Ignorable

/-!
# Quoted text

The form in which messages show a text: in double quotes, with everything that would not show as
itself written as an escape.
-/

namespace VarSubst.Text

/-- The digits of a code point in lower-case hexadecimal, without leading zeros. -/
def hexadecimal (n : Nat) : List Char := Nat.toDigits 16 n

/-- Quotes and backslashes get a backslash, four controls have escapes of their own, and other
characters that are unprintable, combining or ignorable are written by code point. -/
def quoteChar (c : Char) : List Char :=
  match c with
  | '"' => ['\\', '"']
  | '\\' => ['\\', '\\']
  | '\x00' => ['\\', '0']
  | '\t' => ['\\', 't']
  | '\n' => ['\\', 'n']
  | '\r' => ['\\', 'r']
  | c =>
    if isUnprintable c || isCombining c || isIgnorable c then
      '\\' :: 'u' :: '{' :: (hexadecimal c.toNat ++ ['}'])
    else [c]

def quoted (text : String) : String :=
  String.ofList ('"' :: (text.toList.flatMap quoteChar ++ ['"']))

example : quoted "a b" = "\"a b\"" := by decide +kernel

example : quoted "\"\t\u0301" = "\"\\\"\\t\\u\x7b301\x7d\"" := by decide +kernel

example : quoted "\uff9e\uffa0" = "\"\uff9e\\u\x7bffa0\x7d\"" := by decide +kernel

end VarSubst.Text
