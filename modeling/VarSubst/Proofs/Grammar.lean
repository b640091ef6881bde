import Mathlib.Data.List.TakeWhile
import VarSubst.Reference

/-!
# The grammar of references

`Reference.Spelled r written rest` says that `written` is a written form of the reference `r` where
`rest` stands behind it. It does not speak of reading: a key is told by its characters, and a default
by its characters and by counts of its braces (`Closes`, `IsDefault`). Reading the reference that a
text begins with decides this grammar (`Reference.ofPrefix?_eq_some_iff`), so a text begins with at
most one reference.
-/

namespace VarSubst

/-- Characters of a default that stand inside `depth` open braces and close all of them: along the
way no more braces are closed than are open, and at the end none is left open. -/
structure Closes (depth : Nat) (cs : List Char) : Prop where
  chars : ∀ c ∈ cs, isDefaultChar c ∨ c = '{' ∨ c = '}'
  along : ∀ p, p <+: cs → p.count '}' ≤ depth + p.count '{'
  total : cs.count '}' = depth + cs.count '{'

/-- The text of a default: not empty, and with balanced braces. -/
structure IsDefault (body : String) : Prop where
  ne_empty : body ≠ ""
  closes : Closes 0 body.toList

/-- What stands between the key of a braced reference and the end of the reference. -/
inductive Form.Ends : Form → List Char → Prop where
  | braced : Ends .braced ['}']
  | colon (h : IsDefault body) :
      Ends (.withDefault true body) (':' :: '-' :: (body.toList ++ ['}']))
  | dash (h : IsDefault body) : Ends (.withDefault false body) ('-' :: (body.toList ++ ['}']))

/-- The key characters of `cs` are over: it is empty, or begins with another character. -/
def EndsKey (cs : List Char) : Prop := ∀ c ∈ cs.head?, isKeyChar c = false

/-- `written` spells the reference where `rest` stands behind it. The key of a bare reference goes
on as far as there are key characters. -/
inductive Reference.Spelled : Reference → List Char → List Char → Prop where
  | bare {key : String} {rest : List Char} (hkey : isKey key) (hrest : EndsKey rest) :
      Spelled { key, form := .bare } ('$' :: key.toList) rest
  | braced {key : String} {form : Form} {ending rest : List Char} (hkey : isKey key)
      (hends : form.Ends ending) :
      Spelled { key, form } ('$' :: '{' :: (key.toList ++ ending)) rest

/-! ## Keys -/

theorem isKey_iff {key : String} : isKey key ↔ key ≠ "" ∧ ∀ c ∈ key.toList, isKeyChar c := by
  simp [isKey]

/-- Key characters are read up to where the key ends. -/
theorem takeWhile_isKeyChar {cs rest : List Char} (h : ∀ c ∈ cs, isKeyChar c)
    (hrest : EndsKey rest) : (cs ++ rest).takeWhile isKeyChar = cs := by
  rw [List.takeWhile_append_of_pos h]
  cases rest with
  | nil => simp
  | cons c rest => simp [hrest c rfl]

theorem dropWhile_isKeyChar {cs rest : List Char} (h : ∀ c ∈ cs, isKeyChar c)
    (hrest : EndsKey rest) : (cs ++ rest).dropWhile isKeyChar = rest := by
  rw [List.dropWhile_append_of_pos h]
  cases rest with
  | nil => rfl
  | cons c rest => simp [hrest c rfl]

theorem endsKey_dropWhile (cs : List Char) : EndsKey (cs.dropWhile isKeyChar) := by
  intro c hc
  have := List.head?_dropWhile_not isKeyChar cs
  rw [hc] at this
  simpa using this

namespace Reference

/-- A key is read exactly where one stands with no key character behind it. -/
theorem readKey?_eq_some_iff {cs : List Char} {key : String} :
    readKey? cs = some key ↔
      isKey key ∧ cs = key.toList ++ cs.dropWhile isKeyChar := by
  constructor
  · intro h
    unfold readKey? at h
    split at h
    · cases h
    · next hne =>
      cases h
      refine ⟨isKey_iff.2 ⟨by simpa using hne, ?_⟩, by simp⟩
      intro c hc
      rw [String.toList_ofList] at hc
      exact List.mem_takeWhile_imp hc
  · rintro ⟨hkey, hcs⟩
    obtain ⟨hne, hchars⟩ := isKey_iff.1 hkey
    have htake : cs.takeWhile isKeyChar = key.toList := by
      rw [hcs, takeWhile_isKeyChar hchars (endsKey_dropWhile cs)]
    rw [readKey?, htake]
    split
    · next h => exact absurd (String.toList_eq_nil_iff.1 h) hne
    · simp

theorem readKey?_append {key : String} {rest : List Char} (hkey : isKey key)
    (hrest : EndsKey rest) : readKey? (key.toList ++ rest) = some key := by
  have hdrop := dropWhile_isKeyChar (isKey_iff.1 hkey).2 hrest
  exact readKey?_eq_some_iff.2 ⟨hkey, by rw [hdrop]⟩

end Reference

/-! ## Defaults -/

theorem isDefaultChar_of_isKeyChar {c : Char} (h : isKeyChar c) : isDefaultChar c := by
  rcases Bool.or_eq_true_iff.1 h with h | h <;> simp [isDefaultChar, h]

theorem isDefaultChar_ne_open {c : Char} (h : isDefaultChar c) : c ≠ '{' := by
  rintro rfl
  exact absurd h (by decide)

theorem isDefaultChar_ne_close {c : Char} (h : isDefaultChar c) : c ≠ '}' := by
  rintro rfl
  exact absurd h (by decide)

@[simp] theorem closes_nil {depth : Nat} : Closes depth [] ↔ depth = 0 := by
  constructor
  · intro h
    simpa using h.total.symm
  · rintro rfl
    exact ⟨by simp, by simp, rfl⟩

/-- One character goes in front where the braces open behind it are the right number. -/
theorem closes_cons_iff {depth inside : Nat} {c : Char} {cs : List Char}
    (hc : isDefaultChar c ∨ c = '{' ∨ c = '}')
    (hdepth : ([c].count '}' : Nat) + inside = depth + [c].count '{') :
    Closes depth (c :: cs) ↔ Closes inside cs := by
  have hcount (p : List Char) (b : Char) : (c :: p).count b = [c].count b + p.count b := by
    rw [← List.singleton_append, List.count_append]
  constructor
  · intro h
    refine ⟨?_, ?_, ?_⟩
    · intro d hd
      exact h.chars d (List.mem_cons_of_mem c hd)
    · intro p hp
      have := h.along (c :: p) (List.cons_prefix_cons.2 ⟨rfl, hp⟩)
      rw [hcount p '}', hcount p '{'] at this
      omega
    · have := h.total
      rw [hcount cs '}', hcount cs '{'] at this
      omega
  · intro h
    refine ⟨?_, ?_, ?_⟩
    · intro d hd
      rcases List.mem_cons.1 hd with rfl | hd
      · exact hc
      · exact h.chars d hd
    · intro p hp
      rcases List.prefix_cons_iff.1 hp with rfl | ⟨q, rfl, hq⟩
      · simp
      · have := h.along q hq
        rw [hcount q '}', hcount q '{']
        omega
    · have := h.total
      rw [hcount cs '}', hcount cs '{']
      omega

theorem closes_open {depth : Nat} {cs : List Char} :
    Closes depth ('{' :: cs) ↔ Closes (depth + 1) cs :=
  closes_cons_iff (.inr (.inl rfl)) (by simp)

theorem closes_close {depth : Nat} {cs : List Char} :
    Closes (depth + 1) ('}' :: cs) ↔ Closes depth cs :=
  closes_cons_iff (.inr (.inr rfl)) (by simp; omega)

theorem not_closes_close {cs : List Char} : ¬Closes 0 ('}' :: cs) := by
  intro h
  have := h.along ['}'] ⟨cs, rfl⟩
  simp at this

theorem closes_char {depth : Nat} {c : Char} {cs : List Char} (hc : isDefaultChar c) :
    Closes depth (c :: cs) ↔ Closes depth cs := by
  refine closes_cons_iff (.inl hc) ?_
  simp [isDefaultChar_ne_open hc, isDefaultChar_ne_close hc]

namespace Reference

/-- A character that is read on, and so does not close the reference, belongs to the default. -/
theorem exists_closes_cons {before cs : List Char} {c : Char} {depth inside : Nat} {body : String}
    (hcons : ∀ inner, Closes depth (c :: inner) ↔ Closes inside inner)
    (hgoes : c ≠ '}' ∨ depth ≠ 0) :
    (∃ inner rest, cs = inner ++ '}' :: rest ∧ Closes inside inner ∧
      body = String.ofList ((c :: before).reverse ++ inner)) ↔
    ∃ inner rest, c :: cs = inner ++ '}' :: rest ∧ Closes depth inner ∧
      body = String.ofList (before.reverse ++ inner) := by
  constructor
  · rintro ⟨inner, rest, rfl, h, rfl⟩
    exact ⟨c :: inner, rest, rfl, (hcons inner).2 h, by simp⟩
  · rintro ⟨inner, rest, hcs, h, rfl⟩
    cases inner with
    | nil =>
      cases hcs
      rcases hgoes with hc | hdepth
      · exact absurd rfl hc
      · exact absurd (closes_nil.1 h) hdepth
    | cons d inner =>
      cases hcs
      exact ⟨inner, rest, rfl, (hcons inner).1 h, by simp⟩

/-- A default is read exactly up to the brace that closes the reference around it. -/
theorem readBody?_eq_some_iff {before cs : List Char} {depth : Nat} {body : String} :
    readBody? before depth cs = some body ↔
      ∃ inner rest, cs = inner ++ '}' :: rest ∧ Closes depth inner ∧
        body = String.ofList (before.reverse ++ inner) := by
  fun_induction readBody? before depth cs with
  | case1 => simp
  | case2 before cs =>
    constructor
    · rintro ⟨⟩
      exact ⟨[], cs, rfl, closes_nil.2 rfl, by simp⟩
    · rintro ⟨inner, rest, hcs, h, rfl⟩
      cases inner with
      | nil => simp
      | cons c inner =>
        cases hcs
        exact absurd h not_closes_close
  | case3 before depth cs ih =>
    exact ih.trans (exists_closes_cons (fun _ => closes_close) (.inr (Nat.succ_ne_zero depth)))
  | case4 before depth cs h0 h1 ih =>
    exact ih.trans (exists_closes_cons (fun _ => closes_open) (.inl (by decide)))
  | case5 before depth c cs h0 h1 hopen hchar ih =>
    exact ih.trans
      (exists_closes_cons (fun _ => closes_char hchar) (.inl (isDefaultChar_ne_close hchar)))
  | case6 before depth c cs h0 h1 hopen hchar =>
    have hclose : c ≠ '}' := by
      rintro rfl
      cases depth with
      | zero => exact h0 rfl rfl
      | succ depth => exact h1 depth rfl rfl
    constructor
    · intro h
      cases h
    · rintro ⟨inner, rest, hcs, h, -⟩
      exfalso
      cases inner with
      | nil =>
        cases hcs
        exact hclose rfl
      | cons d inner =>
        cases hcs
        rcases h.chars c List.mem_cons_self with hc | hc | hc
        · exact hchar hc
        · exact hopen hc
        · exact hclose hc

theorem readDefault?_eq_some_iff {cs : List Char} {body : String} :
    readDefault? cs = some body ↔
      IsDefault body ∧ ∃ rest, cs = body.toList ++ '}' :: rest := by
  rw [readDefault?, Option.filter_eq_some_iff, readBody?_eq_some_iff]
  constructor
  · rintro ⟨⟨inner, rest, rfl, h, rfl⟩, hne⟩
    exact ⟨⟨by simpa using hne, by simpa using h⟩, rest, by simp⟩
  · rintro ⟨⟨hne, h⟩, rest, rfl⟩
    exact ⟨⟨body.toList, rest, rfl, h, by simp⟩, by simpa using hne⟩

end Reference

/-! ## References -/

theorem Form.Ends.endsKey {form : Form} {ending rest : List Char} (h : form.Ends ending) :
    EndsKey (ending ++ rest) := by
  intro c hc
  cases h <;> cases hc <;> decide

theorem Reference.readForm?_eq_some_iff {cs : List Char} {form : Form} :
    readForm? cs = some form ↔ ∃ ending rest, cs = ending ++ rest ∧ form.Ends ending := by
  constructor
  · intro h
    unfold readForm? at h
    split at h
    · next rest =>
      cases h
      exact ⟨['}'], rest, rfl, .braced⟩
    · next cs =>
      obtain ⟨body, hbody, rfl⟩ := Option.map_eq_some_iff.1 h
      obtain ⟨hdefault, rest, rfl⟩ := readDefault?_eq_some_iff.1 hbody
      exact ⟨_, rest, by simp, .colon hdefault⟩
    · next cs =>
      obtain ⟨body, hbody, rfl⟩ := Option.map_eq_some_iff.1 h
      obtain ⟨hdefault, rest, rfl⟩ := readDefault?_eq_some_iff.1 hbody
      exact ⟨_, rest, by simp, .dash hdefault⟩
    · cases h
  · rintro ⟨ending, rest, rfl, h⟩
    cases h with
    | braced => rfl
    | @colon body h =>
      have := readDefault?_eq_some_iff.2 ⟨h, rest, rfl⟩
      simp [readForm?, this]
    | @dash body h =>
      have := readDefault?_eq_some_iff.2 ⟨h, rest, rfl⟩
      simp [readForm?, this]

namespace Reference.Spelled

theorem render_eq {r : Reference} {written rest : List Char} (h : r.Spelled written rest) :
    r.render = written := by
  cases h with
  | bare => rfl
  | braced _ hends => cases hends <;> rfl

theorem head?_eq {r : Reference} {written rest : List Char} (h : r.Spelled written rest) :
    written.head? = some '$' := by
  cases h <;> rfl

theorem ne_nil {r : Reference} {written rest : List Char} (h : r.Spelled written rest) :
    written ≠ [] := by
  cases h <;> exact List.cons_ne_nil _ _

theorem isKey {r : Reference} {written rest : List Char} (h : r.Spelled written rest) :
    isKey r.key := by
  cases h <;> assumption

/-- A reference is spelled the same way at the end of a text. -/
theorem alone {r : Reference} {written rest : List Char} (h : r.Spelled written rest) :
    r.Spelled written [] := by
  cases h with
  | bare hkey => exact .bare hkey (fun c hc => nomatch hc)
  | braced hkey hends => exact .braced hkey hends

end Reference.Spelled

namespace Reference

/-- Where a reference is spelled it is read. -/
theorem Spelled.ofPrefix? {r : Reference} {written rest : List Char}
    (h : r.Spelled written rest) : ofPrefix? (written ++ rest) = some r := by
  cases h with
  | @bare key _ hkey hrest =>
    have hread := readKey?_append hkey hrest
    obtain ⟨c, cs, hc⟩ := List.exists_cons_of_ne_nil
      (mt String.toList_eq_nil_iff.1 (isKey_iff.1 hkey).1)
    have hopen : c ≠ '{' := by
      rintro rfl
      have := (isKey_iff.1 hkey).2 '{' (by simp [hc])
      exact absurd this (by decide)
    rw [hc] at hread ⊢
    simp only [List.cons_append] at hread ⊢
    unfold Reference.ofPrefix?
    split
    · next heq =>
      cases heq
      exact absurd rfl hopen
    · next heq =>
      cases heq
      rw [hread]
      rfl
    · next h => exact absurd rfl (h _)
  | @braced key form ending _ hkey hends =>
    have hrest : EndsKey (ending ++ rest) := hends.endsKey
    have hread := readKey?_append hkey hrest
    have hdrop := dropWhile_isKeyChar (isKey_iff.1 hkey).2 hrest
    have hform : readForm? (ending ++ rest) = some form :=
      readForm?_eq_some_iff.2 ⟨ending, rest, rfl, hends⟩
    simp [Reference.ofPrefix?, hread, hdrop, hform]

/-- What is read is spelled. -/
theorem exists_spelled_of_ofPrefix? {r : Reference} {cs : List Char}
    (h : ofPrefix? cs = some r) :
    ∃ written rest, cs = written ++ rest ∧ r.Spelled written rest := by
  unfold ofPrefix? at h
  split at h
  · next cs =>
    obtain ⟨key, hread, h⟩ := Option.bind_eq_some_iff.1 h
    obtain ⟨form, hform, h⟩ := Option.bind_eq_some_iff.1 h
    cases h
    obtain ⟨hkey, hcs⟩ := readKey?_eq_some_iff.1 hread
    obtain ⟨ending, rest, hdrop, hends⟩ := readForm?_eq_some_iff.1 hform
    rw [hdrop] at hcs
    exact ⟨_, rest, by simp [hcs], .braced hkey hends⟩
  · next cs _ =>
    obtain ⟨key, hread, rfl⟩ := Option.map_eq_some_iff.1 h
    obtain ⟨hkey, hcs⟩ := readKey?_eq_some_iff.1 hread
    exact ⟨_, cs.dropWhile isKeyChar, by rw [List.cons_append, ← hcs],
      .bare hkey (endsKey_dropWhile cs)⟩
  · cases h

theorem spelled_of_ofPrefix? {r : Reference} {rest : List Char}
    (h : ofPrefix? (r.render ++ rest) = some r) : r.Spelled r.render rest := by
  obtain ⟨written, behind, hcs, hspelled⟩ := exists_spelled_of_ofPrefix? h
  rw [hspelled.render_eq, List.append_cancel_left_eq] at hcs
  rw [hspelled.render_eq, hcs]
  exact hspelled

/-- A text that begins with a reference begins with that reference's written form. -/
theorem render_prefix_of_ofPrefix? {r : Reference} {cs : List Char} (h : ofPrefix? cs = some r) :
    ∃ rest, cs = r.render ++ rest := by
  obtain ⟨written, rest, rfl, hspelled⟩ := exists_spelled_of_ofPrefix? h
  exact ⟨rest, by rw [hspelled.render_eq]⟩

/-- Reading decides the grammar. -/
theorem ofPrefix?_eq_some_iff {r : Reference} {cs : List Char} :
    ofPrefix? cs = some r ↔ ∃ written rest, cs = written ++ rest ∧ r.Spelled written rest := by
  constructor
  · exact exists_spelled_of_ofPrefix?
  · rintro ⟨written, rest, rfl, h⟩
    exact h.ofPrefix?

end Reference

end VarSubst
