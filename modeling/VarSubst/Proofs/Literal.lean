import VarSubst.Proofs.FixedPoint

/-!
# Values written literally

Every value can be configured so that it is taken for itself (`Escape.literal`): one without dollars
as it is, one that starts with a dollar with a backslash in front, and any other with a backslash
before each dollar. The rule that is read off the written text takes just these backslashes away
(`Escape.apply_literal`), whatever other backslashes there are, and nothing is expanded in the
result (`Record.expand_literal`).
-/

namespace VarSubst

namespace Escape

/-- Puts a backslash before each dollar. -/
def escape (cs : List Char) : List Char := cs.flatMap fun c => if c = '$' then ['\\', '$'] else [c]

/-- The text to configure for a value. -/
def literal (value : String) : String :=
  if '$' ∉ value.toList then value
  else if ['$'] <+: value.toList then String.ofList ('\\' :: value.toList)
  else String.ofList (escape value.toList)

variable {c : Char} {cs : List Char} {value : String}

@[simp] theorem escape_nil : escape [] = [] := rfl

theorem escape_dollar : escape ('$' :: cs) = '\\' :: '$' :: escape cs := rfl

theorem escape_of_ne (h : c ≠ '$') : escape (c :: cs) = c :: escape cs := by
  rw [escape, List.flatMap_cons, if_neg h]
  rfl

theorem not_dollar_prefix_escape : ¬['$'] <+: escape cs := by
  cases cs with
  | nil => simp
  | cons c cs =>
    by_cases hc : c = '$'
    · simp [hc, escape_dollar]
    · simp [escape_of_ne hc, Ne.symm hc]

theorem unescape_escape (cs : List Char) : unescape (escape cs) = cs := by
  induction cs with
  | nil => rfl
  | cons c cs ih =>
    by_cases hc : c = '$'
    · rw [hc, escape_dollar, unescape, ih]
    · -- a backslash of the value has no dollar behind it, but perhaps the backslash before one
      have hstart : ¬['\\', '$'] <+: c :: escape cs := fun h =>
        not_dollar_prefix_escape (List.cons_prefix_cons.1 h).2
      rw [escape_of_ne hc, unescape_cons hstart, ih]

theorem escaped_infix_escape (h : '$' ∈ cs) : ['\\', '$'] <:+: escape cs := by
  obtain ⟨before, after, rfl⟩ := List.append_of_mem h
  refine ⟨escape before, escape after, ?_⟩
  simp [escape]

theorem not_escaped_prefix_escape (h : ¬['$'] <+: cs) : ¬['\\', '$'] <+: escape cs := by
  cases cs with
  | nil => simp
  | cons c cs =>
    have hc : c ≠ '$' := by
      rintro rfl
      exact h ⟨cs, rfl⟩
    rw [escape_of_ne hc]
    exact fun h => not_dollar_prefix_escape (List.cons_prefix_cons.1 h).2

/-! ## The rule for a literal text -/

theorem literal_of_dollar_notMem (h : '$' ∉ value.toList) : literal value = value := if_pos h

theorem ofText?_literal_of_dollar_notMem (h : '$' ∉ value.toList) :
    ofText? (literal value) = none := by
  rw [literal_of_dollar_notMem h, ofText?_eq_none_iff]
  exact fun hescaped => h (hescaped.subset (by simp))

theorem ofText?_literal (h : '$' ∈ value.toList) :
    ofText? (literal value) = some (if ['$'] <+: value.toList then .leading else .inner) := by
  rw [literal, if_neg (not_not_intro h)]
  split
  · next hstart =>
    obtain ⟨cs, hcs⟩ := hstart
    rw [ofText?, String.toList_ofList, ← hcs]
    rfl
  · next hstart =>
    have hnot : ¬startsEscaped (escape value.toList) := by
      rw [startsEscaped_iff]
      exact not_escaped_prefix_escape hstart
    rw [ofText?, String.toList_ofList, if_neg hnot, if_pos]
    exact holdsEscaped_iff.2 (escaped_infix_escape h)

/-- The rule for a literal text gives the value back. -/
theorem apply_literal {rule : Escape} (h : ofText? (literal value) = some rule) :
    rule.apply (literal value) = value := by
  by_cases hdollar : '$' ∈ value.toList
  · rw [ofText?_literal hdollar] at h
    cases h
    rw [literal, if_neg (not_not_intro hdollar)]
    split
    · rw [apply, String.toList_ofList, dropBackslash, String.ofList_toList]
    · rw [apply, String.toList_ofList, unescape_escape, String.ofList_toList]
  · rw [ofText?_literal_of_dollar_notMem hdollar] at h
    cases h

theorem literal_ne_empty (h : value ≠ "") : literal value ≠ "" := by
  by_cases hdollar : '$' ∈ value.toList
  · intro hliteral
    have hrule := ofText?_literal hdollar
    rw [hliteral] at hrule
    cases hrule
  · rwa [literal_of_dollar_notMem hdollar]

end Escape

variable {σ : Type} [Store σ] {store : σ} {options : Options} {key : String}

/-- A literal text that is in use comes to the value it stands for. -/
theorem Config.outcome_literal {config : Config} {value : String}
    (h : config.selected store options key (Escape.literal value) = Escape.literal value) :
    config.outcome store options key (Escape.literal value) =
      { value
        source := (config.lookup store options key).map (·.1)
        escaped := decide ('$' ∈ value.toList)
        events := [] } := by
  by_cases hdollar : '$' ∈ value.toList
  · have hrule := Escape.ofText?_literal hdollar
    rw [outcome_eq, h, hrule, decide_eq_true hdollar]
    dsimp only
    rw [Escape.apply_literal hrule]
  · have hrule := Escape.ofText?_eq_none_iff.1 (Escape.ofText?_literal_of_dollar_notMem hdollar)
    rw [outcome_of_not_escaped hrule, expansion, h, Escape.literal_of_dollar_notMem hdollar,
      Scope.expand_of_dollar_notMem hdollar, String.ofList_toList, decide_eq_false hdollar]

namespace Record

/-- **Every value can be written literally.** If the literal text of a value is configured under a
key, and in use for it, a pass gives the key just this value. It notes an escape exactly if the value
holds a dollar, and it cuts no reference for the key. -/
theorem expand_literal (record : Record) (store : σ) (options : Options) (key value : String)
    (hget : record.get? key = some (Escape.literal value))
    (hsource : (∀ text, Store.get? store key = some text → text = "") ∨
      options.environmentFirst = false ∧ value ≠ "") :
    (record.expand store options).record.get? key = some value ∧
    (key ∈ (record.expand store options).report.escaped ↔ '$' ∈ value.toList) ∧
    ∀ t ∈ (record.expand store options).report.truncated, t.origin ≠ key := by
  have houtcome := Config.outcome_literal (Config.selected_eq_configured hget
    (hsource.imp_right fun ⟨hfirst, hne⟩ => ⟨hfirst, Escape.literal_ne_empty hne⟩))
  refine ⟨?_, ?_, ?_⟩
  · rw [get?_expand, hget, Option.map_some, houtcome]
  · simp [mem_escaped_expand, hget, houtcome]
  · have hcuts : (record.expand store options).report.truncated.filter (·.origin = key) = [] := by
      rw [filter_truncated_expand hget, houtcome]
      rfl
    intro t ht
    simpa using List.filter_eq_nil_iff.1 hcuts t ht

/-- A value that has backslashes in front of two of its dollars. -/
def backslashes : String := "\\$$B\\$"

/-- A record with the literal text of this value and a key that refers to itself. -/
def backslashTexts : Record := .ofConfig (.ofList [("A", Escape.literal backslashes), ("B", "$B")])

/-- The store has another text for the key, but is asked last. -/
def otherText : Table String String := .ofList [("A", "a")]

/-- Each of the three dollars has its own backslash taken away, and no other one. -/
theorem backslashTexts_expand : Escape.literal backslashes = "\\\\$\\$B\\\\$" ∧
    (backslashTexts.expand otherText { environmentFirst := false }).record.get? "A" =
      some "\\$$B\\$" ∧
    ∀ t ∈ (backslashTexts.expand otherText { environmentFirst := false }).report.truncated,
      t.origin ≠ "A" := by
  obtain ⟨hvalue, -, hcuts⟩ := expand_literal backslashTexts otherText
    { environmentFirst := false } "A" backslashes (by decide) (.inr (by decide))
  exact ⟨by decide, hvalue, hcuts⟩

end Record

end VarSubst
