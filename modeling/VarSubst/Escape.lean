/-!
# Escaped dollars

A backslash before a dollar switches expansion off for a whole value. Which of two rules applies is
read off the text as configured; the rule is then applied to the value in use, which need not be
that text.
-/

namespace VarSubst

inductive Escape where
  /-- The text starts with an escaped dollar: the first backslash goes. -/
  | leading
  /-- The text holds an escaped dollar further on: every escaped dollar becomes a dollar. -/
  | inner
  deriving DecidableEq, Repr

namespace Escape

def startsEscaped : List Char → Bool
  | '\\' :: '$' :: _ => true
  | _ => false

def holdsEscaped : List Char → Bool
  | [] => false
  | c :: cs => startsEscaped (c :: cs) || holdsEscaped cs

/-- The rule that a configured text asks for. -/
def ofText? (text : String) : Option Escape :=
  if startsEscaped text.toList then some .leading
  else if holdsEscaped text.toList then some .inner
  else none

def dropBackslash : List Char → List Char
  | '\\' :: cs => cs
  | cs => cs

/-- Replaces each escaped dollar by a dollar. -/
def unescape : List Char → List Char
  | '\\' :: '$' :: cs => '$' :: unescape cs
  | c :: cs => c :: unescape cs
  | [] => []

def apply (rule : Escape) (value : String) : String :=
  match rule with
  | .leading => String.ofList (dropBackslash value.toList)
  | .inner => String.ofList (unescape value.toList)

/-! ## Where escapes are found -/

theorem startsEscaped_iff {cs : List Char} : startsEscaped cs = true ↔ ['\\', '$'] <+: cs := by
  unfold startsEscaped
  split
  · simp
  · next h =>
    constructor
    · intro hf
      cases hf
    · rintro ⟨rest, hr⟩
      exact absurd hr.symm (h rest)

theorem holdsEscaped_iff {cs : List Char} : holdsEscaped cs = true ↔ ['\\', '$'] <:+: cs := by
  induction cs with
  | nil => simp [holdsEscaped]
  | cons c cs ih => rw [holdsEscaped, Bool.or_eq_true, ih, startsEscaped_iff, List.infix_cons_iff]

/-- Expansion is switched on exactly for texts without an escaped dollar. -/
theorem ofText?_eq_none_iff {text : String} :
    ofText? text = none ↔ ¬['\\', '$'] <:+: text.toList := by
  rw [← holdsEscaped_iff]
  unfold ofText?
  split
  · next h =>
    have : holdsEscaped text.toList = true :=
      holdsEscaped_iff.2 (startsEscaped_iff.1 h).isInfix
    simp [this]
  · split <;> simp_all

/-! ## Values without escapes -/

/-- A character is kept unless it is a backslash with a dollar behind it. -/
theorem unescape_cons {c : Char} {cs : List Char} (h : ¬['\\', '$'] <+: c :: cs) :
    unescape (c :: cs) = c :: unescape cs := by
  rw [unescape]
  rintro cs' rfl rfl
  exact h ⟨cs', rfl⟩

theorem unescape_of_dollar_notMem {cs : List Char} (h : '$' ∉ cs) : unescape cs = cs := by
  induction cs with
  | nil => rfl
  | cons c cs ih =>
    rw [unescape_cons fun hstart => h (hstart.subset (by simp)), ih fun hcs => h (.tail _ hcs)]

/-- A value that neither starts with a backslash nor holds a dollar is left alone by either rule. -/
theorem apply_eq_self {value : String} (rule : Escape) (hbackslash : ¬['\\'] <+: value.toList)
    (hdollar : '$' ∉ value.toList) : rule.apply value = value := by
  cases rule with
  | leading =>
    have hdrop : dropBackslash value.toList = value.toList := by
      unfold dropBackslash
      split
      · next cs hcs => exact absurd (hcs ▸ List.prefix_append ['\\'] cs) hbackslash
      · rfl
    rw [apply, hdrop, String.ofList_toList]
  | inner => rw [apply, unescape_of_dollar_notMem hdollar, String.ofList_toList]

end Escape

end VarSubst
