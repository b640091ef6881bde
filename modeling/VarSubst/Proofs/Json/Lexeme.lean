import VarSubst.Proofs.Json.Grammar
import VarSubst.Json.Reader

/-!
# Reading lexemes

What a reader makes of a text is seen from its `outcome`. Strings and numbers are read in whatever
way they are written (`readCharacters_spelled`, `readNumeral_spelled`). A number is an integer if it
is one by its digits, and each integer is in range (`Numeral.value?_eq_integer_iff`,
`Numeral.inRange_of_value?`); the digits of an integer are the ones that are written for it
(`Numeral.Spelled.eq_renderInteger`).
-/

namespace VarSubst.Json

/-! ## Outcomes -/

/-- What was read and what is left, or nothing where there was a problem. -/
def erase {α : Type} {cs : List Char} (x : Except Problem (α × Rest cs)) :
    Option (α × List Char) :=
  match x with
  | .ok (a, rest) => some (a, rest.1)
  | .error _ => none

/-- What the reader makes of the text: what it returns and what it leaves, or nothing where it
refuses the text. -/
def Reader.outcome {α : Type} (read : Reader α) (cs : List Char) : Option (α × List Char) :=
  erase (read cs)

section Outcome

variable {α β : Type} {cs rest : List Char} {a : α}

@[simp] theorem erase_ok (a : α) (rest : Rest cs) : erase (.ok (a, rest)) = some (a, rest.1) := rfl

@[simp] theorem erase_error (p : Problem) :
    erase (.error p : Except Problem (α × Rest cs)) = none := rfl

theorem erase_bind {cs' : List Char} {x : Except Problem (α × Rest cs')}
    {f : α × Rest cs' → Except Problem (β × Rest cs)}
    {g : α × List Char → Option (β × List Char)}
    (h : ∀ a rest, erase (f (a, rest)) = g (a, rest.1)) :
    erase (x >>= f) = (erase x).bind g := by
  cases x with
  | error p => rfl
  | ok p => exact h p.1 p.2

theorem erase_map {cs' : List Char} {x : Except Problem (α × Rest cs')}
    {f : α × Rest cs' → β × Rest cs} {g : α × List Char → β × List Char}
    (h : ∀ a rest, ((f (a, rest)).1, (f (a, rest)).2.1) = g (a, rest.1)) :
    erase (x.map f) = (erase x).map g := by
  cases x with
  | error p => rfl
  | ok p => exact congrArg some (h p.1 p.2)

namespace Reader

variable {read : Reader α}

theorem outcome_eq_some_iff :
    read.outcome cs = some (a, rest) ↔ ∃ h, read cs = .ok (a, ⟨rest, h⟩) := by
  unfold outcome
  cases read cs with
  | error p => exact ⟨fun h => (nomatch h), fun ⟨_, h⟩ => (nomatch h)⟩
  | ok p => exact ⟨fun h => by cases h; exact ⟨p.2.2, rfl⟩, fun ⟨_, h⟩ => by cases h; rfl⟩

theorem outcome_eq_none_iff : read.outcome cs = none ↔ ∃ p, read cs = .error p := by
  unfold outcome
  cases read cs with
  | error p => exact ⟨fun _ => ⟨p, rfl⟩, fun _ => rfl⟩
  | ok p => exact ⟨fun h => (nomatch h), fun ⟨_, h⟩ => (nomatch h)⟩

theorem outcome_map (f : α → β) :
    (read.map f).outcome cs = (read.outcome cs).map fun p => (f p.1, p.2) :=
  erase_map fun _ _ => rfl

theorem outcome_ofFunction {read : List Char → Except Problem (α × List Char)}
    (length_lt : ∀ {cs a rest}, read cs = .ok (a, rest) → rest.length < cs.length) :
    (ofFunction read length_lt).outcome cs = (read cs).toOption := by
  unfold outcome ofFunction
  split
  · next h => exact (congrArg Except.toOption h).symm
  · next h => exact (congrArg Except.toOption h).symm

end Reader

end Outcome

/-! ## Blanks -/

theorem next?_blank {cs : List Char} (h : Blank cs) : next? cs = none := by
  induction cs with
  | nil => rfl
  | cons c cs ih =>
    obtain ⟨hc, hcs⟩ := List.forall_mem_cons.1 h
    rw [next?, if_pos hc, ih hcs]
    rfl

theorem next?_cons {c : Char} {cs : List Char} (h : isBlank c = false) :
    next? (c :: cs) = some (c, ⟨cs, Nat.lt_succ_self _⟩) := by
  rw [next?, h]
  rfl

/-- Blanks are passed over. -/
theorem next?_append {before : List Char} {c : Char} (h : Blank before) (hc : isBlank c = false)
    (cs : List Char) : ∃ hlt, next? (before ++ c :: cs) = some (c, ⟨cs, hlt⟩) := by
  induction before with
  | nil => exact ⟨Nat.lt_succ_self _, next?_cons hc⟩
  | cons b before ih =>
    obtain ⟨hb, hbefore⟩ := List.forall_mem_cons.1 h
    obtain ⟨hlt, hnext⟩ := ih hbefore
    refine ⟨Nat.lt_succ_of_lt hlt, ?_⟩
    change next? (b :: (before ++ c :: cs)) = _
    rw [next?, if_pos hb, hnext]
    rfl

/-! ## Strings -/

section Strings

variable {points : CodePointReader} {c : Char} {text rest : List Char}

theorem hexDigit?_of_isHexDigit {n : Nat} (h : IsHexDigit n c) : hexDigit? c = some n := by
  have hdigits : ∀ n < 16, hexDigit? (Nat.digitChar n) = some n ∧
      hexDigit? (Nat.digitChar n).toUpper = some n := by decide
  obtain ⟨hn, rfl | rfl⟩ := h
  · exact (hdigits n hn).1
  · exact (hdigits n hn).2

theorem readUnit_append {n : Nat} (h : IsUnit n text) (rest : List Char) :
    readUnit (text ++ rest) = .ok (n, rest) := by
  obtain ⟨ha, hb, hc, hd⟩ := h
  simp only [readUnit, List.cons_append, List.nil_append, hexDigit?_of_isHexDigit ha,
    hexDigit?_of_isHexDigit hb, hexDigit?_of_isHexDigit hc, hexDigit?_of_isHexDigit hd]

/-- No character is a surrogate. -/
theorem notSurrogate_toNat (c : Char) :
    isLowSurrogate c.toNat = false ∧ isHighSurrogate c.toNat = false := by
  have hvalid : c.toNat < 0xD800 ∨ 0xDFFF < c.toNat ∧ c.toNat < 0x110000 := c.valid
  simp only [isLowSurrogate, isHighSurrogate, Bool.and_eq_false_iff, decide_eq_false_iff_not]
  omega

theorem readCodePoint_unit (h : IsUnit c.toNat text) (rest : List Char) :
    readCodePoint (text ++ rest) = .ok (c, rest) := by
  rw [readCodePoint, readUnit_append h]
  simp only [bind, Except.bind, notSurrogate_toNat c, Bool.false_eq_true, if_false,
    Char.ofNat_toNat]
  rfl

theorem readCodePoint_pair {m n : Nat} {high low : List Char}
    (hc : c.toNat = 0x10000 + m * 0x400 + n) (hm : m < 0x400) (hn : n < 0x400)
    (hhigh : IsUnit (0xD800 + m) high) (hlow : IsUnit (0xDC00 + n) low) (rest : List Char) :
    readCodePoint (high ++ '\\' :: 'u' :: (low ++ rest)) = .ok (c, rest) := by
  have hhighUnit : isLowSurrogate (0xD800 + m) = false ∧ isHighSurrogate (0xD800 + m) = true := by
    simp only [isLowSurrogate, isHighSurrogate, Bool.and_eq_false_iff, Bool.and_eq_true,
      decide_eq_false_iff_not, decide_eq_true_eq]
    omega
  have hlowUnit : isLowSurrogate (0xDC00 + n) = true := by
    simp only [isLowSurrogate, Bool.and_eq_true, decide_eq_true_eq]
    omega
  have hvalue : 0x10000 + (0xD800 + m - 0xD800) * 0x400 + (0xDC00 + n - 0xDC00) = c.toNat := by
    omega
  rw [readCodePoint, readUnit_append hhigh]
  simp only [bind, Except.bind, hhighUnit, Bool.false_eq_true, if_false, if_true,
    readUnit_append hlow, hlowUnit, hvalue, Char.ofNat_toNat]
  rfl

theorem readCharacters_escape {cs rest : List Char} (h : readEscape points.read cs = .ok (c, rest))
    (before : List Char) :
    readCharacters points before ('\\' :: cs) = readCharacters points (c :: before) rest := by
  rw [readCharacters, if_neg (by decide), if_pos rfl]
  split
  · next p hp => cases h.symm.trans hp
  · next c' rest' hok => cases h.symm.trans hok; rfl

theorem readCharacters_plain (h : IsPlain c text) (before rest : List Char) :
    readCharacters points before (text ++ rest) = readCharacters points (c :: before) rest := by
  cases h with
  | self hquote hbackslash hcontrol =>
    rw [List.singleton_append, readCharacters, if_neg hquote, if_neg hbackslash,
      if_neg (Nat.not_lt.2 hcontrol)]
  | letter h =>
    refine readCharacters_escape ?_ before
    cases h <;> rfl

theorem readCharacters_codePoint {cs : List Char} (h : points.read cs = .ok (c, rest))
    (before : List Char) :
    readCharacters points before ('\\' :: 'u' :: cs) =
      readCharacters points (c :: before) rest := by
  have hescape : readEscape points.read ('u' :: cs) = .ok (c, rest) := h
  exact readCharacters_escape hescape before

theorem readCharacters_spelledChar (h : SpelledChar c text) (before rest : List Char) :
    readCharacters pairedCodePoints before (text ++ rest) =
      readCharacters pairedCodePoints (c :: before) rest := by
  cases h with
  | plain h => exact readCharacters_plain h before rest
  | codePoint h => exact readCharacters_codePoint (readCodePoint_unit h rest) before
  | pair hc hm hn hhigh hlow =>
    have hread := readCodePoint_pair hc hm hn hhigh hlow rest
    simp only [List.cons_append, List.append_assoc]
    exact readCharacters_codePoint hread before

/-- A string is read in whatever way it is written. -/
theorem readCharacters_spelled {chars cs : List Char} (h : SpelledChars chars cs)
    (before rest : List Char) :
    readCharacters pairedCodePoints before (cs ++ '"' :: rest) =
      .ok (String.ofList (before.reverse ++ chars), rest) := by
  induction h generalizing before with
  | nil =>
    rw [List.nil_append, List.append_nil, readCharacters]
    rfl
  | cons h _ ih =>
    rw [List.append_assoc, readCharacters_spelledChar h, ih, List.reverse_cons, List.append_assoc]
    rfl

theorem outcome_readQuoted {s : String} {cs : List Char} (h : SpelledChars s.toList cs)
    (rest : List Char) : readQuoted.outcome (cs ++ '"' :: rest) = some (s, rest) := by
  rw [readQuoted, Reader.outcome_ofFunction readCharacters_length_lt, readCharacters_spelled h,
    List.reverse_nil, List.nil_append, String.ofList_toList]
  rfl

/-- Without regard to surrogates, whatever stands between quotes is read. -/
theorem exists_readCharacters_anyUnits {cs : List Char} (h : IsInString cs)
    (before rest : List Char) :
    ∃ s, readCharacters anyUnits before (cs ++ '"' :: rest) = .ok (s, rest) := by
  induction h generalizing before with
  | nil => exact ⟨_, by rw [List.nil_append, readCharacters]; rfl⟩
  | plain h _ ih =>
    rw [List.append_assoc, readCharacters_plain h]
    exact ih _
  | @unit n _ cs h _ ih =>
    have hread : anyUnits.read (_ ++ (cs ++ '"' :: rest)) = .ok (Char.ofNat n, cs ++ '"' :: rest) :=
      congrArg (Except.map _) (readUnit_append h _)
    rw [List.cons_append, List.cons_append, List.append_assoc, readCharacters_codePoint hread]
    exact ih _

end Strings

/-! ## Numerals -/

/-- The text does not begin with a character that could belong to a number in front of it. -/
def EndsNumber (rest : List Char) : Prop :=
  ∀ c, rest.head? = some c → c.isDigit = false ∧ c ≠ '.' ∧ c ≠ 'e' ∧ c ≠ 'E'

/-- The text does not begin with a digit. -/
def EndsDigits (rest : List Char) : Prop := ∀ c, rest.head? = some c → c.isDigit = false

theorem EndsNumber.cons {c : Char} (h : c.isDigit = false ∧ c ≠ '.' ∧ c ≠ 'e' ∧ c ≠ 'E')
    (cs : List Char) : EndsNumber (c :: cs) := fun _ hc => Option.some.inj hc ▸ h

theorem Blank.endsNumber {cs rest : List Char} (h : Blank cs) (hrest : EndsNumber rest) :
    EndsNumber (cs ++ rest) := by
  cases cs with
  | nil => exact hrest
  | cons c cs =>
    have hblank : isBlank c := h c List.mem_cons_self
    simp only [isBlank, Bool.or_eq_true, beq_iff_eq] at hblank
    obtain ((rfl | rfl) | rfl) | rfl := hblank <;> exact .cons (by decide) _

theorem head?_toDigits_append (n : Nat) (cs : List Char) :
    (Nat.toDigits 10 n ++ cs).head? = (Nat.toDigits 10 n).head? := by
  rw [List.head?_append, List.head?_eq_some_head Nat.toDigits_ne_nil, Option.some_or]

/-- No zero comes before another digit. -/
theorem head?_toDigits_of_pos {n : Nat} (h : 0 < n) : (Nat.toDigits 10 n).head? ≠ some '0' := by
  induction n using Nat.strongRecOn with
  | _ n ih =>
    rw [Nat.toDigits_eq_if (by decide)]
    split
    · next hlt =>
      have hdigit : ∀ d < 10, 0 < d → Nat.digitChar d ≠ '0' := by decide
      exact fun hzero => hdigit n hlt h (Option.some.inj hzero)
    · rw [head?_toDigits_append]
      exact ih (n / 10) (by omega) (by omega)

theorem isWhole_toDigits (n : Nat) : IsWhole (Nat.toDigits 10 n) where
  ne_nil := Nat.toDigits_ne_nil
  digit _ hc := Nat.isDigit_of_mem_toDigits (by decide) (by decide) hc
  zero h := by
    obtain rfl : n = 0 := Nat.eq_zero_of_not_pos fun hpos => head?_toDigits_of_pos hpos h
    rfl

theorem digit_of_isDigit {c : Char} (h : c.isDigit) :
    c.toNat - '0'.toNat < 10 ∧ Nat.digitChar (c.toNat - '0'.toNat) = c := by
  obtain ⟨hleast, hgreatest⟩ := Char.isDigit_iff_toNat.1 h
  have hzero : '0'.toNat = 48 := rfl
  have hnine : '9'.toNat = 57 := rfl
  have hlt : c.toNat - '0'.toNat < 10 := by omega
  refine ⟨hlt, Char.toNat_inj.1 ?_⟩
  rw [Nat.toNat_digitChar_of_lt_ten hlt]
  omega

/-- Further digits stand behind those of a number that is not zero. -/
theorem toDigits_append {acc : Nat} (hacc : 0 < acc) {cs : List Char} (h : ∀ c ∈ cs, c.isDigit) :
    Nat.toDigits 10 acc ++ cs = Nat.toDigits 10 (Nat.ofDigitChars 10 cs acc) := by
  induction cs generalizing acc with
  | nil => exact List.append_nil _
  | cons c cs ih =>
    rw [List.forall_mem_cons] at h
    obtain ⟨hlt, hc⟩ := digit_of_isDigit h.1
    have happend := Nat.toDigits_append_toDigits (by decide : 1 < 10) hacc hlt
    rw [Nat.toDigits_of_lt_base hlt, hc] at happend
    rw [Nat.ofDigitChars_cons, ← ih (by omega) h.2, ← happend, List.append_assoc]
    rfl

/-- Digits are those of the number that they stand for. -/
theorem toDigits_ofDigitChars {cs : List Char} (h : IsWhole cs) :
    Nat.toDigits 10 (Nat.ofDigitChars 10 cs 0) = cs := by
  obtain ⟨c, cs, rfl⟩ := List.exists_cons_of_ne_nil h.ne_nil
  by_cases hzero : c = '0'
  · rw [h.zero (congrArg some hzero)]
    rfl
  · have hdigits := List.forall_mem_cons.1 h.digit
    obtain ⟨hlt, hc⟩ := digit_of_isDigit hdigits.1
    have hpos : 0 < c.toNat - '0'.toNat := by
      refine Nat.pos_of_ne_zero fun heq => hzero ?_
      rw [heq] at hc
      exact hc.symm
    rw [Nat.ofDigitChars_cons, Nat.mul_zero, Nat.zero_add, ← toDigits_append hpos hdigits.2,
      Nat.toDigits_of_lt_base hlt, hc]
    rfl

/-- The digits of an integer are a numeral without fraction and exponent. -/
theorem spelled_renderInteger (n : Int) :
    Numeral.Spelled
      { negative := decide (n < 0), whole := Nat.toDigits 10 n.natAbs, fraction := none,
        exponent := none } (Number.renderInteger n) := by
  have hspelled (negative : Bool) :
      Numeral.Spelled
        { negative, whole := Nat.toDigits 10 n.natAbs, fraction := none, exponent := none }
        ((if negative then ['-'] else []) ++ Nat.toDigits 10 n.natAbs) := by
    have h := @Numeral.Spelled.intro negative _ _ _ _ _ (isWhole_toDigits n.natAbs) .none .none
    rw [List.append_nil, List.append_nil] at h
    exact h
  unfold Number.renderInteger
  split
  · next hneg => exact decide_eq_true hneg ▸ hspelled true
  · next hneg => exact decide_eq_false hneg ▸ hspelled false

section Numerals

variable {atEnd : Problem} {digits cs rest : List Char}

theorem readDigits_append (h : IsDigits digits) (hrest : EndsDigits rest) :
    readDigits atEnd (digits ++ rest) = .ok (digits, rest) := by
  have hstop : rest.takeWhile Char.isDigit = [] ∧ rest.dropWhile Char.isDigit = rest := by
    cases rest with
    | nil => exact ⟨rfl, rfl⟩
    | cons c cs => simp [hrest c rfl]
  have htake : (digits ++ rest).takeWhile Char.isDigit = digits := by
    rw [List.takeWhile_append_of_pos h.digit, hstop.1, List.append_nil]
  have hdrop : (digits ++ rest).dropWhile Char.isDigit = rest := by
    rw [List.dropWhile_append_of_pos h.digit, hstop.2]
  unfold readDigits
  rw [htake, hdrop]
  split
  · exact absurd rfl h.ne_nil
  · rfl

theorem readWhole_append (h : IsWhole digits) (hrest : EndsDigits rest) :
    readWhole atEnd (digits ++ rest) = .ok (digits, rest) := by
  unfold readWhole
  split
  · next cs hzero =>
    obtain ⟨d, ds, rfl⟩ := List.exists_cons_of_ne_nil h.ne_nil
    obtain rfl : d = '0' := (List.cons.inj hzero).1
    obtain rfl : ds = [] := (List.cons.inj (h.zero rfl)).2
    obtain rfl : rest = cs := (List.cons.inj hzero).2
    have hnone : ¬rest.head?.any Char.isDigit := by
      cases rest with
      | nil => exact Bool.false_ne_true
      | cons c cs => simp [hrest c rfl]
    rw [if_neg hnone]
  · exact readDigits_append h.toIsDigits hrest

theorem readFraction_append {fraction : Option (List Char)} (h : SpelledFraction fraction cs)
    (hrest : EndsDigits rest) (hpoint : rest.head? ≠ some '.') :
    readFraction atEnd (cs ++ rest) = .ok (fraction, rest) := by
  cases h with
  | none =>
    unfold readFraction
    split
    · next h => exact absurd (congrArg List.head? h) hpoint
    · rfl
  | digits h =>
    rw [List.cons_append, readFraction, readDigits_append h hrest]
    rfl

theorem readExponentSign_append {negative : Bool} {sign : List Char}
    (hsign : SpelledSign negative sign) (h : IsDigits digits) :
    readExponentSign (sign ++ (digits ++ rest)) = (negative, digits ++ rest) := by
  cases hsign with
  | none =>
    obtain ⟨d, ds, rfl⟩ := List.exists_cons_of_ne_nil h.ne_nil
    have hd : d.isDigit := h.digit d List.mem_cons_self
    unfold readExponentSign
    split
    · next h => exact absurd ((List.cons.inj h).1 ▸ hd) (by decide)
    · next h => exact absurd ((List.cons.inj h).1 ▸ hd) (by decide)
    · rfl
  | plus => rfl
  | minus => rfl

theorem readExponent_append {exponent : Option (Bool × List Char)}
    (h : SpelledExponent exponent cs) (hrest : EndsNumber rest) :
    readExponent atEnd (cs ++ rest) = .ok (exponent, rest) := by
  cases h with
  | none =>
    rw [List.nil_append]
    unfold readExponent
    split
    · next c cs => rw [if_neg (not_or.2 (hrest c rfl).2.2)]
    · rfl
  | digits he hsign h =>
    have hdigits : readDigits atEnd (_ ++ rest) = .ok (_, rest) :=
      readDigits_append h fun c hc => (hrest c hc).1
    rw [List.cons_append, List.append_assoc, readExponent, if_pos he]
    simp only [readExponentSign_append hsign h, hdigits]
    rfl

theorem SpelledExponent.head?_append {exponent : Option (Bool × List Char)}
    (h : SpelledExponent exponent cs) (hrest : EndsNumber rest) {c : Char}
    (hc : (cs ++ rest).head? = some c) : c.isDigit = false ∧ c ≠ '.' := by
  cases h with
  | none => exact ⟨(hrest c hc).1, (hrest c hc).2.1⟩
  | digits he =>
    cases hc
    obtain rfl | rfl := he <;> exact ⟨rfl, by decide⟩

theorem SpelledFraction.endsDigits {fraction : Option (List Char)} (h : SpelledFraction fraction cs)
    (hrest : EndsDigits rest) : EndsDigits (cs ++ rest) := by
  cases h with
  | none => exact hrest
  | digits =>
    intro c hc
    cases hc
    rfl

/-- A numeral is read in whatever way it is written. -/
theorem readNumeral_spelled {n : Numeral} (h : n.Spelled cs) (hrest : EndsNumber rest) :
    readNumeral atEnd (cs ++ rest) = .ok (n, rest) := by
  obtain ⟨hwhole, hfraction, hexponent⟩ := h
  next negative whole behindPoint power fraction exponent =>
  have hpower := fun c hc => hexponent.head?_append hrest (c := c) hc
  have hends : EndsDigits (power ++ rest) := fun c hc => (hpower c hc).1
  have hpoint : (power ++ rest).head? ≠ some '.' := fun hc => (hpower _ hc).2 rfl
  have hunsigned : readUnsigned atEnd negative (whole ++ (behindPoint ++ (power ++ rest))) =
      .ok ({ negative, whole, fraction, exponent }, rest) := by
    rw [readUnsigned, readWhole_append hwhole (hfraction.endsDigits hends)]
    simp only [bind, Except.bind, readFraction_append hfraction hends hpoint,
      readExponent_append hexponent hrest]
    rfl
  simp only [List.append_assoc]
  cases negative with
  | true => exact hunsigned
  | false =>
    simp only [Bool.false_eq_true, if_false, List.nil_append]
    unfold readNumeral
    split
    · next hminus =>
      obtain ⟨d, ds, rfl⟩ := List.exists_cons_of_ne_nil hwhole.ne_nil
      have hd : d.isDigit := hwhole.digit d List.mem_cons_self
      exact absurd ((List.cons.inj hminus).1 ▸ hd) (by decide)
    · exact hunsigned

end Numerals

namespace Significand

theorem le_ofDigitChars (cs : List Char) (value : Nat) : value ≤ Nat.ofDigitChars 10 cs value := by
  induction cs generalizing value with
  | nil => exact Nat.le_refl _
  | cons c cs ih =>
    rw [Nat.ofDigitChars_cons]
    exact Nat.le_trans (by omega) (ih _)

theorem push?_eq_some_iff {value digit pushed : Nat} :
    push? value digit = some pushed ↔ pushed = value * 10 + digit ∧ pushed < Nat.pow 2 64 := by
  rw [push?]
  split
  · next h =>
    rw [Option.some_inj]
    exact ⟨fun heq => ⟨heq.symm, heq ▸ h⟩, fun heq => heq.1.symm⟩
  · next h => exact ⟨fun hnone => (nomatch hnone), fun heq => absurd (heq.1 ▸ heq.2) h⟩

section

-- With `push?` open, the digit and the bound would be taken apart unit by unit.
attribute [local irreducible] push?

theorem readWhole_cons (s : Significand) (c : Char) (cs : List Char) :
    s.readWhole (c :: cs) =
      match push? s.value (c.toNat - '0'.toNat) with
      | some value => { s with value }.readWhole cs
      | none => { s with dropped := cs.length + 1 } := rfl

end

/-- No digit is dropped from a number of at most 64 bits. -/
theorem readWhole_of_lt {s : Significand} {cs : List Char}
    (h : Nat.ofDigitChars 10 cs s.value < Nat.pow 2 64) :
    s.readWhole cs = { s with value := Nat.ofDigitChars 10 cs s.value } := by
  induction cs generalizing s with
  | nil => rfl
  | cons c cs ih =>
    rw [Nat.ofDigitChars_cons, Nat.mul_comm 10 s.value] at h ⊢
    have hpush := push?_eq_some_iff.2 ⟨rfl, Nat.lt_of_le_of_lt (le_ofDigitChars cs _) h⟩
    rw [readWhole_cons, hpush]
    exact ih h

/-- Where no digit is dropped, the digits are those of the value. -/
theorem value_readWhole {s : Significand} {cs : List Char} (h : (s.readWhole cs).dropped = 0) :
    (s.readWhole cs).value = Nat.ofDigitChars 10 cs s.value := by
  induction cs generalizing s with
  | nil => rfl
  | cons c cs ih =>
    rw [readWhole_cons] at h ⊢
    split at h
    · next value hpush =>
      rw [ih h, Nat.ofDigitChars_cons, (push?_eq_some_iff.1 hpush).1, Nat.mul_comm 10 s.value]
    · cases h

/-- A significand of whole digits has at most 64 bits. -/
theorem readWhole_lt {s : Significand} (h : s.value < Nat.pow 2 64) (cs : List Char) :
    (s.readWhole cs).value < Nat.pow 2 64 := by
  induction cs generalizing s with
  | nil => exact h
  | cons c cs ih =>
    rw [readWhole_cons]
    split
    · next hpush => exact ih (push?_eq_some_iff.1 hpush).2
    · exact h

end Significand

/-- Integers of 64 bits, signed or not. A floating-point number is in range whatever it is. -/
def Number.InRange : Number → Prop
  | .integer n => -9223372036854775808 ≤ n ∧ n ≤ 18446744073709551615
  | .float _ => True

theorem pow_two_63 : Nat.pow 2 63 = 9223372036854775808 := rfl

theorem pow_two_64 : Nat.pow 2 64 = 18446744073709551616 := rfl

namespace Numeral

/-- A numeral is an integer if it is one by its digits. None is one by rounding. -/
theorem value?_eq_integer_iff {n : Numeral} {i : Int} :
    n.value? = some (.integer i) ↔ n.integer? (Significand.readWhole {} n.whole) = some i := by
  rw [value?]
  dsimp only
  split
  · next j hj => rw [hj, Option.some_inj, Option.some_inj, Number.integer.injEq]
  · next hnone =>
    rw [hnone]
    refine ⟨fun h => ?_, fun h => nomatch h⟩
    obtain ⟨f, -, hf⟩ := Option.map_eq_some_iff.1 h
    cases hf

/-- The value of a numeral is in range. -/
theorem inRange_of_value? {n : Numeral} {v : Number} (h : n.value? = some v) : v.InRange := by
  cases v with
  | float f => trivial
  | integer i =>
    have hi := value?_eq_integer_iff.1 h
    have hlt := Significand.readWhole_lt (s := {}) (by decide) n.whole
    generalize Significand.readWhole {} n.whole = s at hi hlt
    rw [pow_two_64] at hlt
    rw [integer?, pow_two_63] at hi
    unfold Number.InRange
    grind

/-- The text of an integer is the one that is written for it. -/
theorem Spelled.eq_renderInteger {n : Numeral} {cs : List Char} {i : Int} (h : n.Spelled cs)
    (hvalue : n.value? = some (.integer i)) : cs = Number.renderInteger i := by
  rw [value?_eq_integer_iff, integer?] at hvalue
  obtain ⟨hwhole, hfraction, hexponent⟩ := h
  next negative whole behindPoint power fraction exponent =>
  split at hvalue
  · next hinteger =>
    obtain ⟨hnoFraction, hnoExponent, hdropped⟩ := hinteger
    cases hfraction with
    | digits => cases hnoFraction
    | none =>
      cases hexponent with
      | digits => cases hnoExponent
      | none =>
        have hdigits := toDigits_ofDigitChars hwhole
        have hfits := Significand.value_readWhole hdropped
        rw [← hfits] at hdigits
        simp only [List.append_nil]
        generalize (Significand.readWhole {} whole).value = value at hvalue hdigits
        cases negative with
        | false =>
          obtain rfl : (value : Int) = i := Option.some.inj hvalue
          have hsign : ¬(value : Int) < 0 := by omega
          rw [Number.renderInteger, if_neg hsign, Int.natAbs_natCast, hdigits]
          rfl
        | true =>
          simp only [Bool.not_true, Bool.false_eq_true, if_false] at hvalue
          split at hvalue
          · next hpos =>
            obtain rfl : -(value : Int) = i := Option.some.inj hvalue
            have hsign : -(value : Int) < 0 := by omega
            rw [Number.renderInteger, if_pos hsign, Int.natAbs_neg, Int.natAbs_natCast, hdigits]
            rfl
          · cases hvalue
  · cases hvalue

/-- An integer in range is the value of its digits. -/
theorem value?_toDigits {n : Int} (h : (Number.integer n).InRange) :
    value? { negative := decide (n < 0), whole := Nat.toDigits 10 n.natAbs, fraction := none,
             exponent := none } = some (.integer n) := by
  obtain ⟨hleast, hgreatest⟩ := h
  have hvalue : Nat.ofDigitChars 10 (Nat.toDigits 10 n.natAbs) 0 = n.natAbs :=
    Nat.ofDigitChars_toDigits (by decide) (by decide)
  have hwhole : Significand.readWhole {} (Nat.toDigits 10 n.natAbs) = { value := n.natAbs } := by
    rw [Significand.readWhole_of_lt (by rw [hvalue, pow_two_64]; omega), hvalue]
  refine value?_eq_integer_iff.2 ?_
  rw [hwhole, integer?, pow_two_63]
  by_cases hneg : n < 0
  · have hsigned : 0 < n.natAbs ∧ n.natAbs ≤ 9223372036854775808 := by omega
    have habs : -(n.natAbs : Int) = n := by omega
    simp only [hneg, hsigned, habs, decide_true, Option.isNone_none, and_self, Bool.not_true,
      Bool.false_eq_true, if_true, if_false]
  · have habs : (n.natAbs : Int) = n := by omega
    simp only [hneg, habs, decide_false, Option.isNone_none, and_self, Bool.not_false, if_true]

end Numeral

/-- The value of a numeral is read. If it has none the text is refused. -/
theorem outcome_readNumber {n : Numeral} {cs rest : List Char} (h : n.Spelled cs)
    (hrest : EndsNumber rest) :
    readNumber.outcome (cs ++ rest) = n.value?.map fun value => (value, rest) := by
  have hnumeral : (Reader.ofFunction (readNumeral (.unexpectedEnd .value))
      readNumeral_length_lt).outcome (cs ++ rest) = some (n, rest) := by
    rw [Reader.outcome_ofFunction readNumeral_length_lt, readNumeral_spelled h hrest]
    rfl
  obtain ⟨hlt, hread⟩ := Reader.outcome_eq_some_iff.1 hnumeral
  unfold Reader.outcome readNumber
  rw [hread]
  cases hvalue : n.value? <;> simp only [bind, Except.bind, hvalue] <;> rfl

/-! ## Values -/

theorem SpelledChars.isInString {chars cs : List Char} (h : SpelledChars chars cs) :
    IsInString cs := by
  induction h with
  | nil => exact .nil
  | cons h _ ih =>
    cases h with
    | plain h => exact .plain h ih
    | codePoint h => exact .unit h ih
    | pair _ _ _ hhigh hlow =>
      simp only [List.cons_append, List.append_assoc]
      exact .unit hhigh (.unit hlow ih)

/-- A text of a value is a text of some value in the grammar that has no values. -/
theorem Spelled.isValue {value : Json} {text : List Char} (h : Spelled value text) :
    IsValue text := by
  induction h with
  | null => exact .null
  | boolean b => exact .boolean b
  | integer n => exact .number (spelled_renderInteger n)
  | string h =>
    obtain ⟨h⟩ := h
    exact .string (.quoted h.isInString)
  | array hcs _ ih => exact .array hcs (List.forall_mem_map.2 ih)
  | @object members cs hcs _ ih =>
    obtain ⟨texts, hlisted, hmembers⟩ := hcs
    rw [List.forall₂_map_left_iff] at hmembers
    have hnames : Members (fun _ => IsString) (members.map fun m => ((), m.2.2)) cs := by
      refine ⟨texts, hlisted, List.forall₂_map_left_iff.2 (hmembers.imp ?_)⟩
      intro m text hm
      obtain ⟨name, ⟨hname⟩, hmember⟩ := hm
      exact ⟨_, .quoted hname.isInString, hmember⟩
    exact .object hnames (List.forall_mem_map.2 ih)

end VarSubst.Json
