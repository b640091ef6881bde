import VarSubst.Proofs.Json.Lexeme

/-!
# What readers return

Whatever text it is given, a reader of values returns one that nests no deeper than it may and whose
integers are in range (`Json.Fits`, `yields_readValue`). Merging the members of a value keeps that,
and it changes nothing the second time (`Json.Fits.merged`, `Json.merged_merged`).
-/

namespace VarSubst.Json

/-- Lists and objects stand at most `depth` in one another, and integers are in range. -/
inductive Fits : Nat → Json → Prop
  | null {depth : Nat} : Fits depth .null
  | boolean {depth : Nat} (b : Bool) : Fits depth (.boolean b)
  | number {depth : Nat} {n : Number} : n.InRange → Fits depth (.number n)
  | string {depth : Nat} (s : String) : Fits depth (.string s)
  | array {depth : Nat} {items : List Json} :
    (∀ item ∈ items, Fits depth item) → Fits (depth + 1) (.array items)
  | object {depth : Nat} {members : List (String × Json)} :
    (∀ m ∈ members, Fits depth m.2) → Fits (depth + 1) (.object members)

/-! ## Merging -/

theorem mergedItems_eq_map (items : List Json) : mergedItems items = items.map merged := by
  induction items with
  | nil => rfl
  | cons item items ih => rw [mergedItems, ih, List.map_cons]

theorem mergedMembers_eq_map (members : List (String × Json)) :
    mergedMembers members = members.map fun m => (m.1, m.2.merged) := by
  induction members with
  | nil => rfl
  | cons m members ih => rw [mergedMembers, ih, List.map_cons]

theorem mergedItems_eq_self {items : List Json} (h : ∀ item ∈ items, item.merged = item) :
    mergedItems items = items := by
  rw [mergedItems_eq_map, List.map_congr_left h, List.map_id']

theorem mergedMembers_eq_self {members : List (String × Json)}
    (h : ∀ m ∈ members, m.2.merged = m.2) : mergedMembers members = members := by
  have hmap := List.map_congr_left fun m hm => congrArg (m.1, ·) (h m hm)
  rw [mergedMembers_eq_map, hmap, List.map_id']

mutual

theorem merged_merged : (value : Json) → value.merged.merged = value.merged
  | .null | .boolean _ | .number _ | .string _ => rfl
  | .array items => by
    rw [merged, merged, mergedItems_eq_self (merged_of_mem_mergedItems items)]
  | .object members => by
    have hmerged := mergedMembers_eq_self fun m hm =>
      merged_of_mem_mergedMembers members m (Table.mem_of_mem_ofList hm)
    rw [merged, merged, hmerged, Table.ofList_entries]

theorem merged_of_mem_mergedItems :
    (items : List Json) → ∀ item ∈ mergedItems items, item.merged = item
  | [], _, h => nomatch h
  | item :: items, _, h => by
    rcases List.mem_cons.1 h with rfl | h
    · exact merged_merged item
    · exact merged_of_mem_mergedItems items _ h

theorem merged_of_mem_mergedMembers :
    (members : List (String × Json)) → ∀ m ∈ mergedMembers members, m.2.merged = m.2
  | [], _, h => nomatch h
  | (_, value) :: members, _, h => by
    rcases List.mem_cons.1 h with rfl | h
    · exact merged_merged value
    · exact merged_of_mem_mergedMembers members _ h

end

theorem Fits.merged {depth : Nat} {value : Json} (h : Fits depth value) :
    Fits depth value.merged := by
  induction h with
  | null => exact .null
  | boolean b => exact .boolean b
  | number h => exact .number h
  | string s => exact .string s
  | array _ ih =>
    rw [Json.merged, mergedItems_eq_map]
    exact .array (List.forall_mem_map.2 ih)
  | object _ ih =>
    rw [Json.merged, mergedMembers_eq_map]
    refine .object fun m hm => ?_
    obtain ⟨member, hmem, rfl⟩ := List.mem_map.1 (Table.mem_of_mem_ofList hm)
    exact ih member hmem

/-! ## Readers -/

section Ok

variable {ε α β : Type} {x : Except ε α} {b : β}

theorem exists_of_map_eq_ok {f : α → β} (h : x.map f = .ok b) : ∃ a, x = .ok a ∧ f a = b := by
  cases x with
  | error e => cases h
  | ok a => exact ⟨a, rfl, Except.ok.inj h⟩

theorem exists_of_bind_eq_ok {f : α → Except ε β} (h : x >>= f = .ok b) :
    ∃ a, x = .ok a ∧ f a = .ok b := by
  cases x with
  | error e => cases h
  | ok a => exact ⟨a, rfl, h⟩

end Ok

/-- Whatever the reader returns, from whatever text, has the property. -/
def Reader.Yields {α : Type} (read : Reader α) (P : α → Prop) : Prop :=
  ∀ ⦃cs a rest⦄, read cs = .ok (a, rest) → P a

namespace Reader

variable {α β : Type} {read : Reader α} {P : α → Prop}

theorem yields_fail (p : Problem) : (fail p : Reader α).Yields P := fun _ _ _ h => nomatch h

theorem Yields.map {f : α → β} {Q : β → Prop} (h : read.Yields P) (hf : ∀ a, P a → Q (f a)) :
    (read.map f).Yields Q := by
  intro cs b rest hread
  obtain ⟨⟨a, r⟩, hr, heq⟩ := exists_of_map_eq_ok hread
  cases heq
  exact hf a (h hr)

theorem Yields.run (h : read.Yields P) {text : String} {a : α} (hread : read.run text = .ok a) :
    P a := by
  obtain ⟨⟨a', rest⟩, hr, hend⟩ := exists_of_bind_eq_ok hread
  dsimp only at hend
  split at hend
  · cases hend; exact h hr
  · cases hend

end Reader

theorem yields_readNumber : readNumber.Yields Number.InRange := by
  intro cs n rest h
  obtain ⟨⟨numeral, r⟩, -, hvalue⟩ := exists_of_bind_eq_ok h
  dsimp only at hvalue
  split at hvalue
  · next hsome => cases hvalue; exact Numeral.inRange_of_value? hsome
  · cases hvalue

theorem yields_readHead : readHead.Yields fun head => ∀ n, head = .number n → n.InRange := by
  rintro cs head rest h n rfl
  revert h
  fun_cases readHead cs with
  | case1 => exact fun h => nomatch h
  | case5 c r _ _ _ _ _ =>
    intro h
    obtain ⟨⟨n', rest'⟩, hnumber, heq⟩ := exists_of_map_eq_ok h
    cases heq
    exact yields_readNumber hnumber
  | case3 | case4 | case9 => exact fun h => nomatch h
  | _ =>
    intro h
    obtain ⟨_, _, heq⟩ := exists_of_map_eq_ok h
    cases heq

/-- Each item of a list has the property. -/
theorem yields_readList {α : Type} {item : Reader α} {P : α → Prop} (h : item.Yields P) :
    (readList item).Yields fun items => ∀ a ∈ items, P a := by
  have key {whole : List Char} (before : List α) (first : Bool) (cs : Tail whole)
      (hbefore : ∀ a ∈ before, P a) {items rest} :
      readItems item before first cs = .ok (items, rest) → ∀ a ∈ items, P a := by
    fun_induction readItems item before first cs with
    | case1 => exact fun h => nomatch h
    | case2 =>
      intro h
      cases h
      exact fun a ha => hbefore a (List.mem_reverse.1 ha)
    | case3 => exact fun h => nomatch h
    | case4 before first cs start _ a r hitem _ _ _ ih =>
      exact ih (List.forall_mem_cons.2 ⟨h hitem, hbefore⟩)
  intro cs items rest hread
  exact key [] true _ (fun _ hmem => nomatch hmem) hread

/-- What holds at the start and is kept by the reader of each field holds at the end. -/
theorem yields_readFields {σ : Type} {field : σ → String → Except Problem (Reader σ)} {P : σ → Prop}
    (h : ∀ {state name read}, P state → field state name = .ok read → read.Yields P) {state : σ}
    (hstart : P state) : (readFields field state).Yields P := by
  have key {whole : List Char} (state : σ) (first : Bool) (cs : Tail whole) (hstate : P state)
      {state' rest} : readMembers field state first cs = .ok (state', rest) → P state' := by
    fun_induction readMembers field state first cs with
    | case2 =>
      intro h
      cases h
      exact hstate
    | case7 state first cs start _ name behindName _ read hfield behindColon _ state' r hread _ _ _
        _ _ ih => exact ih (h hstate hfield hread)
    | _ => exact fun h => nomatch h
  intro cs state' rest hread
  exact key state true _ hstart hread

theorem yields_readObject {α : Type} {value : Reader α} {P : α → Prop} (h : value.Yields P) :
    (readObject value).Yields fun members => ∀ m ∈ members, P m.2 := by
  refine (yields_readFields (P := fun before => ∀ m ∈ before, P m.2) ?_ ?_).map ?_
  · intro before name read hbefore hfield
    cases hfield
    exact h.map fun a ha m hm => by
      rcases List.mem_cons.1 hm with rfl | hm
      · exact ha
      · exact hbefore m hm
  · exact fun _ hm => nomatch hm
  · exact fun before hbefore m hm => hbefore m (List.mem_reverse.1 hm)

theorem yields_readValueWith {list : Reader (List Json)} {object : Reader (List (String × Json))}
    {depth : Nat} (hlist : list.Yields fun items => Fits depth (.array items))
    (hobject : object.Yields fun members => Fits depth (.object members)) :
    (readValueWith list object).Yields (Fits depth) := by
  intro cs value rest h
  obtain ⟨⟨head, r⟩, hhead, h⟩ := exists_of_bind_eq_ok h
  cases head with
  | null => cases h; exact .null
  | boolean b => cases h; exact .boolean b
  | number n => cases h; exact .number (yields_readHead hhead n rfl)
  | string s => cases h; exact .string s
  | list =>
    obtain ⟨⟨items, r⟩, hitems, heq⟩ := exists_of_map_eq_ok h
    cases heq
    exact hlist hitems
  | object =>
    obtain ⟨⟨members, r⟩, hmembers, heq⟩ := exists_of_map_eq_ok h
    cases heq
    exact hobject hmembers

theorem yields_readValue (depth : Nat) : (readValue depth).Yields (Fits depth) := by
  induction depth with
  | zero => exact yields_readValueWith (Reader.yields_fail _) (Reader.yields_fail _)
  | succ depth ih =>
    exact yields_readValueWith (fun _ _ _ h => .array (yields_readList ih h))
      (fun _ _ _ h => .object (yields_readObject ih h))

end VarSubst.Json
