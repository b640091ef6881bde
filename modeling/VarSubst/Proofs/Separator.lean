import VarSubst.Pass
import VarSubst.Proofs.Scan

/-!
# Texts with a separator between them

A character that may not stand in a default stands in no reference, so no reference reaches across
it: with a separator behind a text the same references are read in it as at its end
(`Reference.ofPrefix?_append_separator`). Two texts with a separator between them therefore have
the references of both, and expand each by itself (`Config.interpolate_separated`).
-/

namespace VarSubst

/-- The characters that do not occur in defaults. -/
def IsSeparator (c : Char) : Prop := isDefaultChar c = false ∧ c ≠ '{' ∧ c ≠ '}'

instance (c : Char) : Decidable (IsSeparator c) := inferInstanceAs (Decidable (_ ∧ _ ∧ _))

/-- The place of a reference in a text in front of which `n` bytes were put. -/
def Placed.shift (n : Nat) (p : Placed) : Placed :=
  { p with start := n + p.start, stop := n + p.stop }

/-! ## Reading up to a separator -/

namespace IsSeparator

variable {c : Char} {rest : List Char}

theorem not_isKeyChar (hc : IsSeparator c) : isKeyChar c = false := by
  cases h : isKeyChar c with
  | false => rfl
  | true =>
    have := isDefaultChar_of_isKeyChar h
    rw [hc.1] at this
    cases this

theorem notMem_of_isDefault (hc : IsSeparator c) {body : String} (h : IsDefault body) :
    c ∉ body.toList := by
  intro hmem
  rcases h.closes.chars c hmem with h | h | h
  · rw [hc.1] at h
    cases h
  · exact hc.2.1 h
  · exact hc.2.2 h

/-- A reference is written without separators. -/
theorem notMem_of_spelled (hc : IsSeparator c) {r : Reference} {written rest : List Char}
    (h : r.Spelled written rest) : c ∉ written := by
  have hchar : c ≠ '$' ∧ c ≠ ':' ∧ c ≠ '-' := by
    refine ⟨?_, ?_, ?_⟩ <;> rintro rfl <;> exact absurd hc.1 (by decide)
  have hkey {key : String} (h : isKey key) : c ∉ key.toList := by
    intro hmem
    have := (isKey_iff.1 h).2 c hmem
    rw [hc.not_isKeyChar] at this
    cases this
  cases h with
  | bare h => simp [hchar, hkey h]
  | braced h hends =>
    cases hends with
    | braced => simp [hchar, hc.2, hkey h]
    | colon hbody | dash hbody =>
      simp [hchar, hc.2, hkey h, hc.notMem_of_isDefault hbody]

/-- A key ends at a separator as it does at the end of the text. -/
theorem endsKey_append_iff (hc : IsSeparator c) {cs : List Char} :
    EndsKey (cs ++ c :: rest) ↔ EndsKey cs := by
  cases cs with
  | nil => simp [EndsKey, hc.not_isKeyChar]
  | cons d cs => simp [EndsKey]

theorem spelled_append_iff (hc : IsSeparator c) {r : Reference} {written behind : List Char} :
    r.Spelled written (behind ++ c :: rest) ↔ r.Spelled written behind := by
  constructor
  · intro h
    cases h with
    | bare hkey hrest => exact .bare hkey (hc.endsKey_append_iff.1 hrest)
    | braced hkey hends => exact .braced hkey hends
  · intro h
    cases h with
    | bare hkey hrest => exact .bare hkey (hc.endsKey_append_iff.2 hrest)
    | braced hkey hends => exact .braced hkey hends

end IsSeparator

/-- What is read at the beginning of a text does not hang on what follows a separator. -/
theorem Reference.ofPrefix?_append_separator {c : Char} (hc : IsSeparator c)
    (cs rest : List Char) : ofPrefix? (cs ++ c :: rest) = ofPrefix? cs := by
  refine Option.ext fun r => ?_
  rw [ofPrefix?_eq_some_iff, ofPrefix?_eq_some_iff]
  constructor
  · rintro ⟨written, behind, h, hspelled⟩
    rcases List.append_eq_append_iff.1 h with ⟨inside, rfl, hinside⟩ | ⟨behind, rfl, rfl⟩
    · cases inside with
      | nil =>
        rw [List.append_nil] at hspelled
        exact ⟨cs, [], (List.append_nil cs).symm, hspelled.alone⟩
      | cons d inside =>
        cases hinside
        exact absurd (by simp) (hc.notMem_of_spelled hspelled)
    · exact ⟨written, behind, rfl, hc.spelled_append_iff.1 hspelled⟩
  · rintro ⟨written, behind, rfl, hspelled⟩
    exact ⟨written, behind ++ c :: rest, List.append_assoc .., hc.spelled_append_iff.2 hspelled⟩

/-! ## Templates and their references -/

namespace Template

/-- A separator is taken literally, and the texts on both sides of it are taken apart alone. -/
theorem ofChars_append_separator {c : Char} (hc : IsSeparator c) (cs rest : List Char) :
    ofChars (cs ++ c :: rest) = ofChars cs ++ .literal c :: ofChars rest := by
  induction cs using scan_induction with
  | nil =>
    have hnone := Reference.ofPrefix?_append_separator hc [] rest
    exact ofChars_cons_of_none hnone
  | literal d cs h ih =>
    rw [ofChars_cons_of_none h, List.cons_append, ofChars_cons_of_none, ih, List.cons_append]
    exact (Reference.ofPrefix?_append_separator hc (d :: cs) rest).trans h
  | reference r behind h ih =>
    rw [ofChars_append_of_some h, List.append_assoc, ofChars_append_of_some, ih, List.cons_append]
    rw [← List.append_assoc]
    exact (Reference.ofPrefix?_append_separator hc _ rest).trans h

theorem placed_append (start : Nat) (t t' : Template) :
    placed start (t ++ t') = placed start t ++ placed (start + Text.byteSize t.render) t' := by
  induction t generalizing start with
  | nil => rfl
  | cons segment t ih =>
    cases segment with
    | literal c =>
      rw [List.cons_append, placed, placed, ih, Nat.add_assoc]
      rfl
    | reference r =>
      simp only [List.cons_append, placed, ih, render, List.flatMap_cons, Segment.render,
        Text.byteSize_append, Nat.add_assoc]

theorem placed_shift (n start : Nat) (t : Template) :
    placed (n + start) t = (placed start t).map (Placed.shift n) := by
  induction t generalizing start with
  | nil => rfl
  | cons segment t ih =>
    cases segment with
    | literal c => rw [placed, placed, Nat.add_assoc, ih]
    | reference r =>
      rw [placed, placed, Nat.add_assoc, ih]
      rfl

/-- The references of two texts with a separator between them. -/
theorem references_separated (a b : String) {c : Char} (hc : IsSeparator c) :
    references (a.push c ++ b) =
      references a ++ (references b).map (Placed.shift (a.push c).utf8ByteSize) := by
  have hsize : (a.push c).utf8ByteSize = Text.byteSize a.toList + c.utf8Size := by
    rw [← String.ofList_toList (s := a.push c), Text.utf8ByteSize_ofList, String.toList_push,
      Text.byteSize_append]
    rfl
  have htext : (a.push c ++ b).toList = a.toList ++ c :: b.toList := by simp
  rw [references, ofText, htext, ofChars_append_separator hc, placed_append, render_ofChars, placed,
    Nat.zero_add, ← hsize, ← Nat.add_zero (a.push c).utf8ByteSize, placed_shift, Nat.add_zero]
  rfl

end Template

/-! ## Expansion -/

theorem Expansion.fill_append (f : Reference → Expansion) (t t' : Template) :
    fill f (t ++ t') = fill f t ++ fill f t' := by
  simp only [fill, concat, List.map_append, List.flatMap_append]
  rfl

variable {σ : Type} [Store σ]

/-- **A separator keeps texts apart.** With a character between them that may not stand in a
default, two texts have the references of the first and then those of the second, further on by what
stands before it, and they expand to their expansions with that character between them. -/
theorem Config.interpolate_separated (config : Config) (store : σ) (options : Options)
    (a b : String) {c : Char} (hc : IsSeparator c) :
    Template.references (a.push c ++ b) =
      Template.references a ++
        (Template.references b).map (Placed.shift (a.push c).utf8ByteSize) ∧
    config.interpolate store options (a.push c ++ b) =
      (config.interpolate store options a).push c ++ config.interpolate store options b := by
  refine ⟨Template.references_separated a b hc, ?_⟩
  have htext : (a.push c ++ b).toList = a.toList ++ c :: b.toList := by simp
  rw [← String.toList_inj]
  simp only [interpolate, Scope.expand, Scope.expandWithin_eq_fill, htext,
    Template.ofChars_append_separator hc, Expansion.fill_append, Expansion.fill_literal,
    Expansion.text_append, String.toList_append, String.toList_push, String.toList_ofList]
  rw [List.append_assoc]
  rfl

/-- A default that is open in front of a separator stays open, whatever closes behind it. -/
theorem openDefault_separated : IsSeparator 'é' ∧
    Template.references ("$\x7bA:-$B".push 'é' ++ "\x7d$C") =
      [⟨⟨"B", .bare⟩, 5, 7⟩, ⟨⟨"C", .bare⟩, 10, 12⟩] ∧
    Config.interpolate (.ofList [("B", "b"), ("C", "c")]) (.empty : Table String String) {}
      ("$\x7bA:-$B".push 'é' ++ "\x7d$C") = "$\x7bA:-bé\x7dc" := by
  have hc : IsSeparator 'é' := by decide
  obtain ⟨hreferences, htext⟩ := Config.interpolate_separated (.ofList [("B", "b"), ("C", "c")])
    (.empty : Table String String) {} "$\x7bA:-$B" "\x7d$C" hc
  exact ⟨hc, hreferences.trans (by decide), htext.trans (by decide)⟩

end VarSubst
