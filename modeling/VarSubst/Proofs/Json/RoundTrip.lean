import VarSubst.Proofs.Json.Grammar

/-!
# Written values

What is written for a value without floating-point numbers is a text of it (`spelled_render`).
-/

namespace VarSubst.Json

/-- No number in the value is a floating-point number. -/
inductive FloatFree : Json → Prop
  | null : FloatFree .null
  | boolean (b : Bool) : FloatFree (.boolean b)
  | integer (n : Int) : FloatFree (.number (.integer n))
  | string (s : String) : FloatFree (.string s)
  | array {items : List Json} : (∀ item ∈ items, FloatFree item) → FloatFree (.array items)
  | object {members : List (String × Json)} :
    (∀ m ∈ members, FloatFree m.2) → FloatFree (.object members)

/-! ## Strings -/

theorem spelledChar_renderChar (c : Char) : SpelledChar c (renderChar c) := by
  unfold renderChar
  split
  case h_1 => exact .plain (.letter .quote)
  case h_2 => exact .plain (.letter .backslash)
  case h_3 => exact .plain (.letter .backspace)
  case h_4 => exact .plain (.letter .formFeed)
  case h_5 => exact .plain (.letter .lineFeed)
  case h_6 => exact .plain (.letter .carriageReturn)
  case h_7 => exact .plain (.letter .tab)
  case h_8 hquote hbackslash _ _ _ _ _ =>
    split
    · have hzero : IsHexDigit 0 '0' := isHexDigit_digitChar (Nat.zero_lt_succ 15)
      have hunit := IsUnit.digits hzero hzero (isHexDigit_digitChar (by omega : c.toNat / 16 < 16))
        (isHexDigit_digitChar (by omega : c.toNat % 16 < 16))
      have hvalue : ((0 * 16 + 0) * 16 + c.toNat / 16) * 16 + c.toNat % 16 = c.toNat := by omega
      rw [hvalue] at hunit
      exact .codePoint hunit
    · next hplain => exact .plain (.self hquote hbackslash (Nat.not_lt.1 hplain))

theorem spelledChars_flatMap (cs : List Char) : SpelledChars cs (cs.flatMap renderChar) := by
  induction cs with
  | nil => exact .nil
  | cons c cs ih => exact .cons (spelledChar_renderChar c) ih

theorem spelledString_renderString (s : String) : SpelledString s (renderString s) :=
  .quoted (spelledChars_flatMap s.toList)

/-! ## Lists and objects -/

theorem separated_cons (item : List Char) (items : List (List Char)) :
    separated (item :: items) = item ++ items.flatMap (',' :: ·) := by
  induction items generalizing item with
  | nil => rw [separated, List.flatMap_nil, List.append_nil]
  | cons next items ih =>
    rw [separated, ih, List.flatMap_cons, List.cons_append]
    exact fun h => nomatch h

theorem listed_separated (texts : List (List Char)) : Listed texts (separated texts) := by
  have hfurther (texts : List (List Char)) : Further texts (texts.flatMap (',' :: ·)) := by
    induction texts with
    | nil => exact .nil
    | cons text texts ih => exact .cons (.self text) ih
  cases texts with
  | nil => exact .nil .nil
  | cons text texts =>
    rw [separated_cons]
    exact .cons (.self text) (hfurther texts)

/-- Members are written with no blanks between them. -/
theorem members_separated (members : List (String × List Char)) :
    Members SpelledString members (separated (members.map fun m => renderMember m.1 m.2)) := by
  refine ⟨_, listed_separated _, List.forall₂_map_right_iff.2 (List.forall₂_same.2 ?_)⟩
  exact fun m _ => ⟨_, spelledString_renderString m.1, @IsMember.intro _ m.2 _ _ .nil .nil⟩

/-! ## Values -/

theorem renderItems_eq_map (items : List Json) : renderItems items = items.map render := by
  induction items with
  | nil => rfl
  | cons item items ih => rw [renderItems, ih, List.map_cons]

theorem renderMembers_eq_map (members : List (String × Json)) :
    renderMembers members = members.map fun m => renderMember m.1 m.2.render := by
  induction members with
  | nil => rfl
  | cons m members ih => rw [renderMembers, ih, List.map_cons]

theorem spelled_render {value : Json} (h : FloatFree value) : Spelled value value.render := by
  induction h with
  | null => exact .null
  | boolean b => exact .boolean b
  | integer n => exact .integer n
  | string s => exact .string (spelledString_renderString s)
  | @array items _ ih =>
    have hitems : (items.map fun item => (item, item.render)).map (·.1) = items := by
      rw [List.map_map]
      exact List.map_id' items
    have hcs : Listed ((items.map fun item => (item, item.render)).map (·.2))
        (separated (renderItems items)) := by
      rw [List.map_map, renderItems_eq_map]
      exact listed_separated _
    have harray := Spelled.array hcs (List.forall_mem_map.2 ih)
    rw [hitems] at harray
    exact harray
  | @object members _ ih =>
    have hmembers : (members.map fun m => (m.1, m.2, m.2.render)).map (fun m => (m.1, m.2.1)) =
        members := by
      rw [List.map_map]
      exact List.map_id' members
    have hcs : Members SpelledString
        ((members.map fun m => (m.1, m.2, m.2.render)).map fun m => (m.1, m.2.2))
        (separated (renderMembers members)) := by
      have hseparated := members_separated (members.map fun m => (m.1, m.2.render))
      rw [List.map_map] at hseparated ⊢
      rw [renderMembers_eq_map]
      exact hseparated
    have hobject := Spelled.object hcs (List.forall_mem_map.2 ih)
    rw [hmembers] at hobject
    exact hobject

theorem isText_render {value : Json} (h : FloatFree value) :
    IsText value (String.ofList value.render) :=
  (spelled_render h).isText String.toList_ofList

end VarSubst.Json
