import VarSubst.Json.Number
import VarSubst.Text.Quoted

/-!
# Problems in JSON texts

What can be wrong with a text that should be JSON of a certain shape, and how it is told. The place
in the text is no part of what is told.
-/

namespace VarSubst.Json

/-- What a text broke off in. -/
inductive Unfinished where
  | value
  | string
  | list
  | object
  deriving DecidableEq, Repr

/-- How a value begins: a scalar is there as a whole, a list or an object is only opened. -/
inductive Head where
  | null
  | boolean (b : Bool)
  | number (n : Number)
  | string (s : String)
  | list
  | object
  deriving DecidableEq

inductive Problem where
  | unexpectedEnd (inside : Unfinished)
  | expectedValue
  | misspelledWord
  | expectedColon
  | expectedCommaOrBrace
  | expectedCommaOrBracket
  | trailingComma
  | trailingCharacters
  | nameNotString
  | invalidNumber
  | numberOutOfRange
  | invalidEscape
  | unpairedSurrogate
  | misplacedSurrogate
  | controlCharacter
  | nestedTooDeep
  | wrongType (found : Head) (wanted : String)
  | wrongInteger (n : Int) (wanted : String)
  | duplicateField (name : String)
  deriving DecidableEq

def Unfinished.name : Unfinished → String
  | .value => "a value"
  | .string => "a string"
  | .list => "a list"
  | .object => "an object"

/-- Puts a text between back quotes. -/
def inBackquotes (text : String) : String := "\x60" ++ text ++ "\x60"

def Head.message : Head → String
  | .null => "null"
  | .boolean b => "boolean " ++ inBackquotes (if b then "true" else "false")
  | .number (.integer n) => "integer " ++ inBackquotes (String.ofList (Number.renderInteger n))
  | .number (.float f) => "floating point " ++ inBackquotes (String.ofList (Number.renderFloat f))
  | .string s => "string " ++ Text.quoted s
  | .list => "sequence"
  | .object => "map"

def Problem.message : Problem → String
  | .unexpectedEnd inside => "EOF while parsing " ++ inside.name
  | .expectedValue => "expected value"
  | .misspelledWord => "expected ident"
  | .expectedColon => "expected " ++ inBackquotes ":"
  | .expectedCommaOrBrace => "expected " ++ inBackquotes "," ++ " or " ++ inBackquotes "\x7d"
  | .expectedCommaOrBracket => "expected " ++ inBackquotes "," ++ " or " ++ inBackquotes "]"
  | .trailingComma => "trailing comma"
  | .trailingCharacters => "trailing characters"
  | .nameNotString => "key must be a string"
  | .invalidNumber => "invalid number"
  | .numberOutOfRange => "number out of range"
  | .invalidEscape => "invalid escape"
  | .unpairedSurrogate => "unexpected end of hex escape"
  | .misplacedSurrogate => "lone leading surrogate in hex escape"
  | .controlCharacter => "control character (\\u0000-\\u001F) found while parsing a string"
  | .nestedTooDeep => "recursion limit exceeded"
  | .wrongType found wanted => "invalid type: " ++ found.message ++ ", expected " ++ wanted
  | .wrongInteger n wanted =>
    "invalid value: " ++ (Head.number (.integer n)).message ++ ", expected " ++ wanted
  | .duplicateField name => "duplicate field " ++ inBackquotes name

end VarSubst.Json
