import VarSubst.Json.Skipper
import VarSubst.Proofs.Json.Reading

/-!
# Skipping values

A value that is passed over is passed over to its end and no further, whatever lists and objects are
open around it (`Skips`). One loop goes behind every value, for lists and for objects, so a list or
an object is passed over item by item in the same way (`skipBehind_remaining`).
-/

namespace VarSubst.Json

/-- What is left of a text. -/
def left {cs : List Char} (x : Except Problem (Rest cs)) : Option (List Char) :=
  x.toOption.map (·.1)

/-- What is left once everything that is open has been closed, from behind a value on or, if
`first`, from behind an opening bracket on. -/
def skipBehind (first : Bool) (opened : List Bracket) (cs : List Char) : Option (List Char) :=
  match skipClosing first opened cs with
  | .error _ => none
  | .ok (.done rest) => some rest.1
  | .ok (.value opened start) => left (skipFrom opened (.whole start.1))

/-- What is left depends on what is to be read only. -/
theorem left_skipFrom_congr {whole whole' : List Char} (opened : List Bracket) (xs : Tail whole)
    (ys : Tail whole') (h : ys.1 = xs.1) :
    left (skipFrom opened ys) = left (skipFrom opened xs) := by
  obtain ⟨ys, hle⟩ := ys
  subst h
  -- The recursion shortens `xs` inside one whole text, so the other whole text has to be general.
  revert whole'
  fun_induction skipFrom opened xs with
  | case1 opened xs p hhead =>
    intro whole' hle
    rw [skipFrom, hhead]
    rfl
  | case2 opened xs entered r hhead p hclosing =>
    intro whole' hle
    rw [skipFrom, hhead]
    simp only [hclosing]
    rfl
  | case3 opened xs entered r hhead rest hclosing =>
    intro whole' hle
    rw [skipFrom, hhead]
    simp only [hclosing]
    rfl
  | case4 opened xs entered r hhead opened' start hclosing _ _ _ ih =>
    intro whole' hle
    rw [skipFrom, hhead]
    simp only [hclosing]
    exact ih _

theorem left_skipFrom {whole : List Char} (opened : List Bracket) (xs : Tail whole) :
    left (skipFrom opened xs) = (Reader.outcome skipHead xs.1).bind fun p =>
      skipBehind p.1.isSome (p.1.toList ++ opened) p.2 := by
  rw [skipFrom, Reader.outcome]
  cases skipHead xs.1 with
  | error p => rfl
  | ok p =>
    obtain ⟨entered, r⟩ := p
    simp only [erase_ok, Option.bind_some, skipBehind]
    cases skipClosing entered.isSome (entered.toList ++ opened) r.1 with
    | error p => rfl
    | ok onward =>
      cases onward with
      | done rest => rfl
      | value opened' start => exact left_skipFrom_congr opened' _ _ rfl

/-! ## Scalars -/

section Scalars

variable {cs rest : List Char}

theorem skipQuoted_append (h : IsInString cs) (rest : List Char) :
    ∃ hlt, skipQuoted (cs ++ '"' :: rest) = .ok ⟨rest, hlt⟩ := by
  obtain ⟨s, hs⟩ := exists_readCharacters_anyUnits h [] rest
  have hread : (Reader.ofFunction (readCharacters anyUnits []) readCharacters_length_lt).outcome
      (cs ++ '"' :: rest) = some (s, rest) := by
    rw [Reader.outcome_ofFunction readCharacters_length_lt, hs]
    rfl
  obtain ⟨hlt, hok⟩ := Reader.outcome_eq_some_iff.1 hread
  refine ⟨hlt, ?_⟩
  rw [skipQuoted, hok]
  rfl

theorem skipNumber_append {n : Numeral} (h : n.Spelled cs) (hrest : EndsNumber rest) :
    ∃ hlt, skipNumber (cs ++ rest) = .ok ⟨rest, hlt⟩ := by
  have hread : (Reader.ofFunction (readNumeral .invalidNumber) readNumeral_length_lt).outcome
      (cs ++ rest) = some (n, rest) := by
    rw [Reader.outcome_ofFunction readNumeral_length_lt, readNumeral_spelled h hrest]
    rfl
  obtain ⟨hlt, hok⟩ := Reader.outcome_eq_some_iff.1 hread
  refine ⟨hlt, ?_⟩
  rw [skipNumber, hok]
  rfl

theorem answers_skipHead_null : Reader.Answers skipHead (render .null) (some none) := by
  intro before rest hbefore _
  obtain ⟨hlt, hnext⟩ := next?_append hbefore (c := 'n') rfl (['u', 'l', 'l'] ++ rest)
  unfold Reader.outcome skipHead
  rw [render, List.cons_append, hnext]
  rfl

theorem answers_skipHead_boolean (b : Bool) :
    Reader.Answers skipHead (render (.boolean b)) (some none) := by
  intro before rest hbefore _
  cases b with
  | true =>
    obtain ⟨hlt, hnext⟩ := next?_append hbefore (c := 't') rfl (['r', 'u', 'e'] ++ rest)
    unfold Reader.outcome skipHead
    rw [render, List.cons_append, hnext]
    rfl
  | false =>
    obtain ⟨hlt, hnext⟩ := next?_append hbefore (c := 'f') rfl
      (['a', 'l', 's', 'e'] ++ rest)
    unfold Reader.outcome skipHead
    rw [render, List.cons_append, hnext]
    rfl

theorem answers_skipHead_numeral {n : Numeral} (h : n.Spelled cs) :
    Reader.Answers skipHead cs (some none) := by
  intro before rest hbefore hrest
  obtain ⟨c, tail, rfl, hc⟩ := h.exists_cons
  obtain ⟨hlt, hnumber⟩ : ∃ hlt, skipNumber (c :: (tail ++ rest)) = .ok ⟨rest, hlt⟩ :=
    skipNumber_append h hrest
  obtain ⟨hlt', hnext⟩ := next?_append hbefore (isBlank_of_startsNumber hc) (tail ++ rest)
  have hquote := ne_of_startsNumber (d := '"') hc rfl
  have hlist := ne_of_startsNumber (d := '[') hc rfl
  have hobject := ne_of_startsNumber (d := '{') hc rfl
  unfold Reader.outcome skipHead
  rw [List.cons_append, hnext]
  simp only [if_neg hquote, if_neg hlist, if_neg hobject, if_pos hc, hnumber]
  rfl

theorem answers_skipHead_string (h : IsString cs) : Reader.Answers skipHead cs (some none) := by
  obtain @⟨inside, h⟩ := h
  intro before rest hbefore _
  obtain ⟨hlt, hnext⟩ := next?_append hbefore (c := '"') rfl (inside ++ '"' :: rest)
  obtain ⟨hlt', hquoted⟩ := skipQuoted_append h rest
  rw [List.cons_append, List.append_assoc, List.singleton_append]
  unfold Reader.outcome skipHead
  rw [hnext]
  simp only [if_true, hquoted]
  rfl

end Scalars

/-! ## Brackets -/

def Bracket.opening : Bracket → Char
  | .list => '['
  | .object => '{'

theorem outcome_skipHead_opening {before : List Char} (h : Blank before) (b : Bracket)
    (cs : List Char) :
    Reader.outcome skipHead (before ++ b.opening :: cs) = some (some b, cs) := by
  have hopening : isBlank b.opening = false := by cases b <;> rfl
  obtain ⟨hlt, hnext⟩ := next?_append h hopening cs
  unfold Reader.outcome skipHead
  rw [hnext]
  cases b <;> rfl

/-- The text of a value is passed over, whatever is open around it. -/
def Skips (text : List Char) : Prop :=
  ∀ opened before rest, Blank before → EndsNumber rest →
    left (skipFrom opened (.whole (before ++ (text ++ rest)))) = skipBehind false opened rest

/-- The text of an item is passed over wherever an item is looked for. -/
def SkipsItem (b : Bracket) (text : List Char) : Prop :=
  ∀ opened first cs before rest, Leads (before ++ (text ++ rest)) first cs → Blank before →
    EndsNumber rest → skipBehind first (b :: opened) cs = skipBehind false (b :: opened) rest

section Brackets

variable {b : Bracket} {opened : List Bracket} {first : Bool}
  {blanks text value cs start rest : List Char}

theorem skips_scalar (h : Reader.Answers skipHead text (some none)) : Skips text := by
  intro opened before rest hbefore hrest
  have hhead : Reader.outcome skipHead (Tail.whole (before ++ (text ++ rest))).1 =
      some (none, rest) := h before rest hbefore hrest
  rw [left_skipFrom, hhead]
  rfl

theorem skipBehind_closed (h : Blank blanks) (first : Bool) (b : Bracket) (opened : List Bracket)
    (rest : List Char) :
    skipBehind first (b :: opened) (blanks ++ b.closing :: rest) =
      skipBehind false opened rest := by
  have hclosing : isBlank b.closing = false := by cases b <;> rfl
  obtain ⟨hlt, hnext⟩ := next?_append h hclosing rest
  rw [skipBehind, skipClosing, hnext, skipBehind]
  simp only [if_true]
  cases skipClosing false opened rest with
  | error p => rfl
  | ok onward => cases onward <;> rfl

/-- What is passed over next is the value of an item. -/
theorem skipBehind_lead {c : Char} {tail : List Char}
    (hlead : Leads (blanks ++ c :: tail) first cs) (h : Blank blanks) (hc : isBlank c = false)
    (hclosing : c ≠ b.closing)
    (hname : ∃ hle, skipName b (blanks ++ c :: tail) = .ok ⟨start, hle⟩) :
    skipBehind first (b :: opened) cs = left (skipFrom (b :: opened) (.whole start)) := by
  obtain ⟨hle, hname⟩ := hname
  cases hlead with
  | first =>
    obtain ⟨hlt, hnext⟩ := next?_append h hc tail
    rw [skipBehind, skipClosing, hnext]
    simp only [if_neg hclosing, if_true, hname]
    rfl
  | comma hblanks =>
    obtain ⟨hlt, hnext⟩ := next?_append hblanks (c := ',') rfl (blanks ++ c :: tail)
    have hcomma : ',' ≠ b.closing := by cases b <;> decide
    rw [skipBehind, skipClosing, hnext]
    simp only [if_neg hcomma, Bool.false_eq_true, if_false, if_true, hname]
    rfl

theorem skipsItem_list (h : Skips text) (hopens : OpensItem text) : SkipsItem .list text := by
  intro opened first cs before rest hlead hbefore hrest
  obtain ⟨c, tail, rfl, hc, hclosing⟩ := hopens
  rw [← h (.list :: opened) before rest hbefore hrest]
  exact skipBehind_lead hlead hbefore hc hclosing ⟨Nat.le_refl _, rfl⟩

theorem skipsItem_member {name : List Char} (hname : IsString name)
    (hmember : IsMember name value text) (h : Skips value) : SkipsItem .object text := by
  intro opened first cs before rest hlead hbefore hrest
  obtain @⟨inside, hinside⟩ := hname
  obtain @⟨behind, front, hbehind, hfront⟩ := hmember
  simp only [List.cons_append, List.append_assoc, List.nil_append] at hlead
  -- The name is passed over first, and then the value as any other value of what is open.
  obtain ⟨hlt, hnext⟩ := next?_append hbefore (c := '"') rfl
    (inside ++ '"' :: (behind ++ ':' :: (front ++ (value ++ rest))))
  obtain ⟨hlt', hquoted⟩ := skipQuoted_append hinside (behind ++ ':' :: (front ++ (value ++ rest)))
  obtain ⟨hlt'', hcolon⟩ := readColon_append hbehind (front ++ (value ++ rest))
  rw [← h (.object :: opened) front rest hfront hrest]
  refine skipBehind_lead hlead hbefore (by decide) (by decide) ⟨?_, ?_⟩
  · exact Nat.le_of_lt (Nat.lt_trans (Nat.lt_trans hlt'' hlt') hlt)
  · rw [skipName, hnext]
    simp only [if_true, hquoted, bind, Except.bind, hcolon]
    rfl

theorem skipsItem_of_members {members : List (Unit × List Char)} {texts : List (List Char)}
    (h : List.Forall₂ (fun m text => ∃ name, IsString name ∧ IsMember name m.2 text) members texts)
    (hvalues : ∀ m ∈ members, Skips m.2) : ∀ text ∈ texts, SkipsItem .object text := by
  induction h with
  | nil => exact List.forall_mem_nil _
  | cons hm _ ih =>
    rw [List.forall_mem_cons] at hvalues ⊢
    obtain ⟨name, hname, hmember⟩ := hm
    exact ⟨skipsItem_member hname hmember hvalues.1, ih hvalues.2⟩

/-- The items that are left are passed over one by one, and so is the bracket behind them. -/
theorem skipBehind_remaining {texts : List (List Char)}
    (h : Remaining (b.closing :: rest) first texts cs) (hitems : ∀ text ∈ texts, SkipsItem b text) :
    skipBehind first (b :: opened) cs = skipBehind false opened rest := by
  induction h with
  | closed hblanks => exact skipBehind_closed hblanks _ b opened rest
  | item hlead hfront hends _ ih =>
    rw [List.forall_mem_cons] at hitems
    rw [hitems.1 opened _ _ _ _ hlead hfront hends, ih hitems.2]

/-- A list or an object is passed over if its items are. -/
theorem skips_listed {texts : List (List Char)} (h : Listed texts cs)
    (hitems : ∀ text ∈ texts, SkipsItem b text) : Skips (b.opening :: (cs ++ [b.closing])) := by
  intro opened before rest hbefore _
  have hhead := outcome_skipHead_opening hbefore b (cs ++ b.closing :: rest)
  have hclosing : EndsNumber (b.closing :: rest) := .cons (by cases b <;> decide) rest
  rw [← skipBehind_remaining (h.remaining hclosing) hitems, left_skipFrom]
  simp only [Tail.whole, List.cons_append, List.append_assoc, List.nil_append, hhead]
  rfl

end Brackets

/-! ## Values -/

/-- The text of a value is passed over to its end, of whatever numbers and strings and however
deep it is. -/
theorem skips_value {text : List Char} (h : IsValue text) : Skips text := by
  induction h with
  | null => exact skips_scalar answers_skipHead_null
  | boolean b => exact skips_scalar (answers_skipHead_boolean b)
  | number h => exact skips_scalar (answers_skipHead_numeral h)
  | string h => exact skips_scalar (answers_skipHead_string h)
  | array hcs h ih =>
    exact skips_listed (b := .list) hcs fun item hitem =>
      skipsItem_list (ih item hitem) (h item hitem).opensItem
  | @object members cs hcs h ih =>
    obtain ⟨texts, hlisted, hmembers⟩ := hcs
    exact skips_listed (b := .object) hlisted (skipsItem_of_members hmembers ih)

theorem answers_skipValue {text : List Char} (h : IsValue text) :
    skipValue.Answers text (some ()) := by
  intro before rest hbefore hrest
  have hskips : left (skipFrom [] (.whole (before ++ (text ++ rest)))) = some rest :=
    skips_value h [] before rest hbefore hrest
  unfold Reader.outcome skipValue
  cases hskip : skipFrom [] (.whole (before ++ (text ++ rest))) with
  | error p =>
    rw [hskip] at hskips
    cases hskips
  | ok r =>
    rw [hskip] at hskips
    exact congrArg (Option.map fun rest => ((), rest)) hskips

end VarSubst.Json
