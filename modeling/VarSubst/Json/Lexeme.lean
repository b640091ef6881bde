import VarSubst.Json.Problem
import VarSubst.Text.ByteSize

/-!
# Lexemes of JSON

Readers for the smallest parts of a JSON text: blanks, words, strings and numerals. Each returns
what it read and the text behind it, which is shorter than the text it was given (the `length_lt`
lemmas); that is what every longer reading ends by.
-/

namespace VarSubst.Json

/-! ## Blanks -/

def isBlank (c : Char) : Bool := c == ' ' || c == '\t' || c == '\n' || c == '\r'

/-- What is left of a text after a part of it. -/
abbrev Rest (cs : List Char) := { rest : List Char // rest.length < cs.length }

/-- What is left of a text after a part of it, which may be nothing. -/
abbrev Tail (cs : List Char) := { rest : List Char // rest.length ≤ cs.length }

namespace Tail

/-- Nothing has been taken yet. -/
def whole (cs : List Char) : Tail cs := ⟨cs, Nat.le_refl _⟩

def ofRest {cs : List Char} (rest : Rest cs) : Tail cs := ⟨rest.1, Nat.le_of_lt rest.2⟩

def trans {cs : List Char} {r : Rest cs} (rest : Tail r.1) : Tail cs :=
  ⟨rest.1, Nat.le_trans rest.2 (Nat.le_of_lt r.2)⟩

end Tail

/-- The next character that is not a blank, and the text behind it. -/
def next? : (cs : List Char) → Option (Char × Rest cs)
  | [] => none
  | c :: cs =>
    if isBlank c then (next? cs).map fun (c, r) => (c, ⟨r.1, Nat.lt_succ_of_lt r.2⟩)
    else some (c, ⟨cs, Nat.lt_succ_self _⟩)

/-! ## Words -/

/-- Reads the rest of a word, character by character. -/
def readWord : (word cs : List Char) → Except Problem (Tail cs)
  | [], cs => .ok (.whole cs)
  | _ :: _, [] => .error (.unexpectedEnd .value)
  | w :: word, c :: cs =>
    if w = c then (readWord word cs).map fun r => ⟨r.1, Nat.le_succ_of_le r.2⟩
    else .error .misspelledWord

/-! ## Strings -/

def hexDigit? (c : Char) : Option Nat :=
  if '0' ≤ c ∧ c ≤ '9' then some (c.toNat - '0'.toNat)
  else if 'a' ≤ c ∧ c ≤ 'f' then some (c.toNat - 'a'.toNat + 10)
  else if 'A' ≤ c ∧ c ≤ 'F' then some (c.toNat - 'A'.toNat + 10)
  else none

/-- Reads four hexadecimal digits. A text that ends within the next four bytes is unfinished,
whatever those bytes are. -/
def readUnit (cs : List Char) : Except Problem (Nat × List Char) :=
  let bad : Problem :=
    if Text.byteSize (cs.take 4) < 4 then .unexpectedEnd .string else .invalidEscape
  match cs with
  | a :: b :: c :: d :: rest =>
    match hexDigit? a, hexDigit? b, hexDigit? c, hexDigit? d with
    | some a, some b, some c, some d => .ok (((a * 16 + b) * 16 + c) * 16 + d, rest)
    | _, _, _, _ => .error bad
  | _ => .error bad

def isHighSurrogate (unit : Nat) : Bool := 0xD800 ≤ unit && unit < 0xDC00

def isLowSurrogate (unit : Nat) : Bool := 0xDC00 ≤ unit && unit < 0xE000

/-- Reads a character written by code point: as one unit, or as a pair of surrogates. -/
def readCodePoint (cs : List Char) : Except Problem (Char × List Char) := do
  let (unit, rest) ← readUnit cs
  if isLowSurrogate unit then throw .misplacedSurrogate
  else if isHighSurrogate unit then
    match rest with
    | '\\' :: 'u' :: rest => do
      let (low, rest) ← readUnit rest
      if isLowSurrogate low then
        return (Char.ofNat (0x10000 + (unit - 0xD800) * 0x400 + (low - 0xDC00)), rest)
      else throw .misplacedSurrogate
    | [] | ['\\'] => throw (.unexpectedEnd .string)
    | _ => throw .unpairedSurrogate
  else return (Char.ofNat unit, rest)

/-- The character that a one-letter escape stands for. -/
def shortEscape? : Char → Option Char
  | '"' => some '"'
  | '\\' => some '\\'
  | '/' => some '/'
  | 'b' => some '\x08'
  | 'f' => some '\x0c'
  | 'n' => some '\n'
  | 'r' => some '\r'
  | 't' => some '\t'
  | _ => none

/-- Reads what follows a backslash; `codePoint` reads what follows `\u`. -/
def readEscape (codePoint : List Char → Except Problem (Char × List Char)) :
    List Char → Except Problem (Char × List Char)
  | [] => .error (.unexpectedEnd .string)
  | 'u' :: cs => codePoint cs
  | c :: cs =>
    match shortEscape? c with
    | some c => .ok (c, cs)
    | none => .error .invalidEscape

/-- The character of a unit that need not be one: surrogates are let pass. -/
def readAnyUnit (cs : List Char) : Except Problem (Char × List Char) :=
  (readUnit cs).map fun (unit, rest) => (Char.ofNat unit, rest)

/-- A reader of code points that takes something from the text. -/
structure CodePointReader where
  read : List Char → Except Problem (Char × List Char)
  length_lt : ∀ {cs c rest}, read cs = .ok (c, rest) → rest.length < cs.length

theorem readUnit_length_lt {cs rest : List Char} {unit : Nat} (h : readUnit cs = .ok (unit, rest)) :
    rest.length < cs.length := by
  unfold readUnit at h
  dsimp only at h
  split at h
  · split at h
    · cases h; simp +arith
    · cases h
  · cases h

theorem readCodePoint_length_lt {cs rest : List Char} {c : Char}
    (h : readCodePoint cs = .ok (c, rest)) : rest.length < cs.length := by
  unfold readCodePoint at h
  cases hu : readUnit cs with
  | error p => rw [hu] at h; cases h
  | ok ur =>
    obtain ⟨unit, mid⟩ := ur
    have hlt := readUnit_length_lt hu
    rw [hu] at h
    simp only [bind, Except.bind] at h
    split at h
    · cases h
    · split at h
      · split at h
        · next low =>
          cases hl : readUnit low with
          | error p => rw [hl] at h; cases h
          | ok lr =>
            have hlt' := readUnit_length_lt hl
            rw [hl] at h
            simp only at h
            split at h
            · simp only [pure, Except.pure, Except.ok.injEq, Prod.mk.injEq] at h
              simp only [List.length_cons] at hlt
              rw [← h.2]
              omega
            · cases h
        all_goals cases h
      · simp only [pure, Except.pure, Except.ok.injEq, Prod.mk.injEq] at h
        rw [← h.2]
        exact hlt

/-- Surrogates have to come in pairs. -/
def pairedCodePoints : CodePointReader := ⟨readCodePoint, readCodePoint_length_lt⟩

/-- Surrogates are not looked at. -/
def anyUnits : CodePointReader where
  read := readAnyUnit
  length_lt {cs c rest} h := by
    unfold readAnyUnit at h
    cases hu : readUnit cs with
    | error p => rw [hu] at h; cases h
    | ok ur => rw [hu] at h; cases h; exact readUnit_length_lt hu

theorem readEscape_length_lt (points : CodePointReader) {cs rest : List Char} {c : Char}
    (h : readEscape points.read cs = .ok (c, rest)) : rest.length < cs.length := by
  unfold readEscape at h
  split at h
  · cases h
  · exact Nat.lt_succ_of_lt (points.length_lt h)
  · split at h
    · cases h; exact Nat.lt_succ_self _
    · cases h

/-- Reads a string up to its closing quote; `before` is what was read of it, last character first.
-/
def readCharacters (points : CodePointReader) (before : List Char) :
    List Char → Except Problem (String × List Char)
  | [] => .error (.unexpectedEnd .string)
  | c :: cs =>
    if c = '"' then .ok (String.ofList before.reverse, cs)
    else if c = '\\' then
      match _h : readEscape points.read cs with
      | .error p => .error p
      | .ok (c, rest) => readCharacters points (c :: before) rest
    else if c.toNat < 0x20 then .error .controlCharacter
    else readCharacters points (c :: before) cs
termination_by cs => cs.length
decreasing_by
  · exact Nat.lt_succ_of_lt (readEscape_length_lt points _h)
  · exact Nat.lt_succ_self _

theorem readCharacters_length_lt {points : CodePointReader} {before cs rest : List Char}
    {s : String} (h : readCharacters points before cs = .ok (s, rest)) :
    rest.length < cs.length := by
  fun_induction readCharacters points before cs with
  | case1 => cases h
  | case2 => cases h; exact Nat.lt_succ_self _
  | case3 => cases h
  | case4 before cs c rest he _ ih =>
    have := readEscape_length_lt points he
    have := ih h
    simp only [List.length_cons]
    omega
  | case5 => cases h
  | case6 before c cs _ _ _ ih => exact Nat.lt_succ_of_lt (ih h)

/-! ## Numerals -/

/-- Reads at least one digit; `atEnd` is the problem where the text ends before the first. -/
def readDigits (atEnd : Problem) (cs : List Char) : Except Problem (List Char × List Char) :=
  match cs.takeWhile Char.isDigit with
  | [] => .error (if cs.isEmpty then atEnd else .invalidNumber)
  | digits => .ok (digits, cs.dropWhile Char.isDigit)

/-- Reads the digits before the point; a zero stands alone. -/
def readWhole (atEnd : Problem) : List Char → Except Problem (List Char × List Char)
  | '0' :: cs => if cs.head?.any Char.isDigit then .error .invalidNumber else .ok (['0'], cs)
  | cs => readDigits atEnd cs

def readFraction (atEnd : Problem) : List Char → Except Problem (Option (List Char) × List Char)
  | '.' :: cs => (readDigits atEnd cs).map fun (digits, rest) => (some digits, rest)
  | cs => .ok (none, cs)

/-- The sign of an exponent, if it has one. -/
def readExponentSign : List Char → Bool × List Char
  | '+' :: cs => (false, cs)
  | '-' :: cs => (true, cs)
  | cs => (false, cs)

def readExponent (atEnd : Problem) :
    List Char → Except Problem (Option (Bool × List Char) × List Char)
  | c :: cs =>
    if c = 'e' ∨ c = 'E' then
      let (negative, cs) := readExponentSign cs
      (readDigits atEnd cs).map fun (digits, rest) => (some (negative, digits), rest)
    else .ok (none, c :: cs)
  | [] => .ok (none, [])

def readUnsigned (atEnd : Problem) (negative : Bool) (cs : List Char) :
    Except Problem (Numeral × List Char) := do
  let (whole, cs) ← readWhole atEnd cs
  let (fraction, cs) ← readFraction atEnd cs
  let (exponent, cs) ← readExponent atEnd cs
  return ({ negative, whole, fraction, exponent }, cs)

def readNumeral (atEnd : Problem) : List Char → Except Problem (Numeral × List Char)
  | '-' :: cs => readUnsigned atEnd true cs
  | cs => readUnsigned atEnd false cs

theorem length_dropWhile_le (p : Char → Bool) (cs : List Char) :
    (cs.dropWhile p).length ≤ cs.length :=
  (List.dropWhile_sublist p).length_le

theorem readDigits_length_lt {atEnd : Problem} {cs digits rest : List Char}
    (h : readDigits atEnd cs = .ok (digits, rest)) : rest.length < cs.length := by
  unfold readDigits at h
  split at h
  · cases h
  · next hne =>
    cases h
    cases cs with
    | nil => exact absurd rfl hne
    | cons c cs =>
      have hc : c.isDigit := by
        cases hc : c.isDigit with
        | true => rfl
        | false => simp [hc] at hne
      have := length_dropWhile_le Char.isDigit cs
      simp only [List.dropWhile_cons, hc, if_true, List.length_cons]
      omega

theorem readWhole_length_lt {atEnd : Problem} {cs digits rest : List Char}
    (h : readWhole atEnd cs = .ok (digits, rest)) : rest.length < cs.length := by
  unfold readWhole at h
  split at h
  · split at h
    · cases h
    · cases h; exact Nat.lt_succ_self _
  · exact readDigits_length_lt h

theorem readFraction_length_le {atEnd : Problem} {cs rest : List Char} {digits : Option (List Char)}
    (h : readFraction atEnd cs = .ok (digits, rest)) : rest.length ≤ cs.length := by
  unfold readFraction at h
  split at h
  · next cs =>
    cases hd : readDigits atEnd cs with
    | error p => rw [hd] at h; cases h
    | ok dr =>
      have := readDigits_length_lt hd
      rw [hd] at h
      cases h
      simp only [List.length_cons]
      omega
  · cases h; exact Nat.le_refl _

theorem readExponentSign_length_le (cs : List Char) :
    (readExponentSign cs).2.length ≤ cs.length := by
  unfold readExponentSign
  split <;> simp

theorem readExponent_length_le {atEnd : Problem} {cs rest : List Char}
    {exponent : Option (Bool × List Char)} (h : readExponent atEnd cs = .ok (exponent, rest)) :
    rest.length ≤ cs.length := by
  unfold readExponent at h
  split at h
  · next c cs =>
    split at h
    · cases hd : readDigits atEnd (readExponentSign cs).2 with
      | error p => simp [hd, Except.map] at h
      | ok dr =>
        have := readDigits_length_lt hd
        have := readExponentSign_length_le cs
        simp only [hd, Except.map, Except.ok.injEq, Prod.mk.injEq] at h
        rw [← h.2, List.length_cons]
        omega
    · cases h; exact Nat.le_refl _
  · cases h; exact Nat.le_refl _

theorem readUnsigned_length_lt {atEnd : Problem} {negative : Bool} {cs rest : List Char}
    {n : Numeral} (h : readUnsigned atEnd negative cs = .ok (n, rest)) :
    rest.length < cs.length := by
  unfold readUnsigned at h
  cases hw : readWhole atEnd cs with
  | error p => rw [hw] at h; cases h
  | ok w =>
    rw [hw] at h
    cases hf : readFraction atEnd w.2 with
    | error p => simp [bind, Except.bind, hf] at h
    | ok f =>
      cases he : readExponent atEnd f.2 with
      | error p => simp [bind, Except.bind, hf, he] at h
      | ok e =>
        simp only [bind, Except.bind, hf, he, pure, Except.pure, Except.ok.injEq,
          Prod.mk.injEq] at h
        have := readWhole_length_lt hw
        have := readFraction_length_le hf
        have := readExponent_length_le he
        rw [← h.2]
        omega

theorem readNumeral_length_lt {atEnd : Problem} {cs rest : List Char} {n : Numeral}
    (h : readNumeral atEnd cs = .ok (n, rest)) : rest.length < cs.length := by
  unfold readNumeral at h
  split at h
  · exact Nat.lt_succ_of_lt (readUnsigned_length_lt h)
  · exact readUnsigned_length_lt h

end VarSubst.Json
