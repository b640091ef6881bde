import Mathlib.Data.List.Forall2
import VarSubst.Json.Lexeme
import VarSubst.Json.Writer

/-!
# The grammar of JSON

`Spelled value cs` says that `cs` is a text of the value. It does not speak of reading: blanks stand
around values and names wherever they may, a character of a string is written as itself, by a letter
or by code point, and an integer by its digits. Floating-point numbers have no text here.

`IsValue cs` says only that `cs` is a text of a value. It is the grammar alone: numbers may be of
any size and surrogates need not come in pairs.
-/

namespace VarSubst.Json

/-! ## Blanks and lists -/

/-- Nothing but blanks. -/
def Blank (cs : List Char) : Prop := ∀ c ∈ cs, isBlank c

/-- The text with blanks around it. -/
inductive Padded (text : List Char) : List Char → Prop
  | intro {before behind : List Char} (hbefore : Blank before) (hbehind : Blank behind) :
    Padded text (before ++ (text ++ behind))

theorem Blank.nil : Blank [] := fun _ hc => nomatch hc

/-- No blanks need to stand around a text. -/
theorem Padded.self (text : List Char) : Padded text text := by
  have h := @Padded.intro text _ _ Blank.nil Blank.nil
  rw [List.nil_append, List.append_nil] at h
  exact h

/-- Texts with blanks around them, each of them behind a comma. -/
inductive Further : List (List Char) → List Char → Prop
  | nil : Further [] []
  | cons {text cs cs' : List Char} {texts : List (List Char)} (h : Padded text cs)
      (hfurther : Further texts cs') : Further (text :: texts) (',' :: (cs ++ cs'))

/-- Texts with blanks around them and commas between them. Where there is no text, blanks may stand
all the same. -/
inductive Listed : List (List Char) → List Char → Prop
  | nil {cs : List Char} (h : Blank cs) : Listed [] cs
  | cons {text cs cs' : List Char} {texts : List (List Char)} (h : Padded text cs)
      (hfurther : Further texts cs') : Listed (text :: texts) (cs ++ cs')

/-! ## Strings -/

/-- The letter that stands behind a backslash for a character. -/
inductive EscapeLetter : Char → Char → Prop
  | quote : EscapeLetter '"' '"'
  | backslash : EscapeLetter '\\' '\\'
  | slash : EscapeLetter '/' '/'
  | backspace : EscapeLetter '\x08' 'b'
  | formFeed : EscapeLetter '\x0c' 'f'
  | lineFeed : EscapeLetter '\n' 'n'
  | carriageReturn : EscapeLetter '\r' 'r'
  | tab : EscapeLetter '\t' 't'

/-- A hexadecimal digit; letters may be of either case. -/
def IsHexDigit (n : Nat) (c : Char) : Prop :=
  n < 16 ∧ (c = Nat.digitChar n ∨ c = (Nat.digitChar n).toUpper)

theorem isHexDigit_digitChar {n : Nat} (hn : n < 16) : IsHexDigit n (Nat.digitChar n) :=
  ⟨hn, .inl rfl⟩

/-- Four hexadecimal digits. -/
inductive IsUnit : Nat → List Char → Prop
  | digits {k l m n : Nat} {a b c d : Char} (ha : IsHexDigit k a) (hb : IsHexDigit l b)
      (hc : IsHexDigit m c) (hd : IsHexDigit n d) :
    IsUnit (((k * 16 + l) * 16 + m) * 16 + n) [a, b, c, d]

/-- A character that is written without its code point. -/
inductive IsPlain : Char → List Char → Prop
  | self {c : Char} (hquote : c ≠ '"') (hbackslash : c ≠ '\\') (hcontrol : 0x20 ≤ c.toNat) :
    IsPlain c [c]
  | letter {c letter : Char} (h : EscapeLetter c letter) : IsPlain c ['\\', letter]

/-- A written form of a character. One of more than 16 bits needs a pair of surrogates. -/
inductive SpelledChar : Char → List Char → Prop
  | plain {c : Char} {cs : List Char} (h : IsPlain c cs) : SpelledChar c cs
  | codePoint {c : Char} {unit : List Char} (h : IsUnit c.toNat unit) :
    SpelledChar c ('\\' :: 'u' :: unit)
  | pair {c : Char} {m n : Nat} {high low : List Char}
      (hc : c.toNat = 0x10000 + m * 0x400 + n) (hm : m < 0x400) (hn : n < 0x400)
      (hhigh : IsUnit (0xD800 + m) high) (hlow : IsUnit (0xDC00 + n) low) :
    SpelledChar c ('\\' :: 'u' :: (high ++ '\\' :: 'u' :: low))

inductive SpelledChars : List Char → List Char → Prop
  | nil : SpelledChars [] []
  | cons {c : Char} {text chars cs : List Char} (h : SpelledChar c text)
      (hchars : SpelledChars chars cs) : SpelledChars (c :: chars) (text ++ cs)

/-- A written form of the string, quotes included. -/
inductive SpelledString (s : String) : List Char → Prop
  | quoted {cs : List Char} (h : SpelledChars s.toList cs) :
    SpelledString s ('"' :: (cs ++ ['"']))

/-- What stands between the quotes of a string, whether or not its surrogates come in pairs. -/
inductive IsInString : List Char → Prop
  | nil : IsInString []
  | plain {c : Char} {text cs : List Char} (h : IsPlain c text) (hcs : IsInString cs) :
    IsInString (text ++ cs)
  | unit {n : Nat} {unit cs : List Char} (h : IsUnit n unit) (hcs : IsInString cs) :
    IsInString ('\\' :: 'u' :: (unit ++ cs))

inductive IsString : List Char → Prop
  | quoted {cs : List Char} (h : IsInString cs) : IsString ('"' :: (cs ++ ['"']))

/-! ## Numbers -/

/-- Digits, of which there is at least one. -/
structure IsDigits (cs : List Char) : Prop where
  ne_nil : cs ≠ []
  digit : ∀ c ∈ cs, c.isDigit

/-- The digits before the point. No zero comes before another digit. -/
structure IsWhole (cs : List Char) : Prop extends IsDigits cs where
  zero : cs.head? = some '0' → cs = ['0']

inductive SpelledFraction : Option (List Char) → List Char → Prop
  | none : SpelledFraction none []
  | digits {digits : List Char} (h : IsDigits digits) :
    SpelledFraction (some digits) ('.' :: digits)

/-- The sign of an exponent; it may be left out before a positive one. -/
inductive SpelledSign : Bool → List Char → Prop
  | none : SpelledSign false []
  | plus : SpelledSign false ['+']
  | minus : SpelledSign true ['-']

inductive SpelledExponent : Option (Bool × List Char) → List Char → Prop
  | none : SpelledExponent none []
  | digits {e : Char} {negative : Bool} {sign digits : List Char} (he : e = 'e' ∨ e = 'E')
      (hsign : SpelledSign negative sign) (h : IsDigits digits) :
    SpelledExponent (some (negative, digits)) (e :: (sign ++ digits))

/-- A written form of a numeral. -/
inductive Numeral.Spelled : Numeral → List Char → Prop
  | intro {negative : Bool} {whole behindPoint power : List Char} {fraction : Option (List Char)}
      {exponent : Option (Bool × List Char)} (hwhole : IsWhole whole)
      (hfraction : SpelledFraction fraction behindPoint)
      (hexponent : SpelledExponent exponent power) :
    Numeral.Spelled { negative, whole, fraction, exponent }
      ((if negative then ['-'] else []) ++ (whole ++ (behindPoint ++ power)))

/-! ## Objects -/

/-- A member, given by the texts of its name and of its value. -/
inductive IsMember (name value : List Char) : List Char → Prop
  | intro {behind before : List Char} (hbehind : Blank behind) (hbefore : Blank before) :
    IsMember name value (name ++ (behind ++ ':' :: (before ++ value)))

/-- What stands between the braces of an object; `Named` says how its names are written, and of the
values the texts are given. -/
def Members {ν : Type} (Named : ν → List Char → Prop) (members : List (ν × List Char))
    (cs : List Char) : Prop :=
  ∃ texts, Listed texts cs ∧
    List.Forall₂ (fun m text => ∃ name, Named m.1 name ∧ IsMember name m.2 text) members texts

/-! ## Values -/

/-- A text of the value. -/
inductive Spelled : Json → List Char → Prop
  | null : Spelled .null (render .null)
  | boolean (b : Bool) : Spelled (.boolean b) (render (.boolean b))
  | integer (n : Int) : Spelled (.number (.integer n)) (Number.renderInteger n)
  | string {s : String} {cs : List Char} (h : SpelledString s cs) : Spelled (.string s) cs
  | array {items : List (Json × List Char)} {cs : List Char} (hcs : Listed (items.map (·.2)) cs)
      (h : ∀ item ∈ items, Spelled item.1 item.2) :
    Spelled (.array (items.map (·.1))) ('[' :: (cs ++ [']']))
  | object {members : List (String × Json × List Char)} {cs : List Char}
      (hcs : Members SpelledString (members.map fun m => (m.1, m.2.2)) cs)
      (h : ∀ m ∈ members, Spelled m.2.1 m.2.2) :
    Spelled (.object (members.map fun m => (m.1, m.2.1))) ('{' :: (cs ++ ['}']))

/-- A text of some value. -/
inductive IsValue : List Char → Prop
  | null : IsValue (render .null)
  | boolean (b : Bool) : IsValue (render (.boolean b))
  | number {n : Numeral} {cs : List Char} (h : n.Spelled cs) : IsValue cs
  | string {cs : List Char} (h : IsString cs) : IsValue cs
  | array {items : List (List Char)} {cs : List Char} (hcs : Listed items cs)
      (h : ∀ item ∈ items, IsValue item) : IsValue ('[' :: (cs ++ [']']))
  | object {members : List (Unit × List Char)} {cs : List Char}
      (hcs : Members (fun _ => IsString) members cs) (h : ∀ m ∈ members, IsValue m.2) :
    IsValue ('{' :: (cs ++ ['}']))

/-- The text is one of the value. -/
def IsText (value : Json) (text : String) : Prop := ∃ cs, Spelled value cs ∧ Padded cs text.toList

theorem Spelled.isText {value : Json} {cs : List Char} {text : String} (h : Spelled value cs)
    (htext : text.toList = cs) : IsText value text := ⟨cs, h, htext ▸ .self _⟩

/-- The text is one of an object with these members, given by their names and the texts of their
values. -/
def IsObjectText (members : List (String × List Char)) (text : String) : Prop :=
  ∃ cs, Members SpelledString members cs ∧ Padded ('{' :: (cs ++ ['}'])) text.toList

theorem Members.isObjectText {members : List (String × List Char)} {cs : List Char} {text : String}
    (h : Members SpelledString members cs) (htext : text.toList = '{' :: (cs ++ ['}'])) :
    IsObjectText members text := ⟨cs, h, htext ▸ .self _⟩

end VarSubst.Json
