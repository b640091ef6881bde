import VarSubst.Proofs.Json.Fits

/-!
# Repeated names

In the value that a text means, the last member of a name counts, at every depth. `Json.LastWins`
says this by looking for names; it is what merging does (`Json.lastWins_iff`).
-/

namespace VarSubst.Json

/-- The second value is the first one with repeated names resolved. Of an object, `last` lists by
name the last value that the name has and what that value becomes. -/
inductive LastWins : Json → Json → Prop
  | null : LastWins .null .null
  | boolean (b : Bool) : LastWins (.boolean b) (.boolean b)
  | number (n : Number) : LastWins (.number n) (.number n)
  | string (s : String) : LastWins (.string s) (.string s)
  | array {items : List (Json × Json)} (h : ∀ item ∈ items, LastWins item.1 item.2) :
    LastWins (.array (items.map (·.1))) (.array (items.map (·.2)))
  | object {members : List (String × Json)} {last : List (String × Json × Json)}
      (hsorted : last.Pairwise fun m m' => m.1 < m'.1)
      (hlast : ∀ name, Table.find? name members.reverse =
        Table.find? name (last.map fun m => (m.1, m.2.1)))
      (h : ∀ m ∈ last, LastWins m.2.1 m.2.2) :
    LastWins (.object members) (.object (last.map fun m => (m.1, m.2.2)))

/-- It is the same to merge the members and to keep the last ones of them. -/
theorem ofList_mergedMembers (members : List (String × Json)) :
    Table.ofList (mergedMembers members) = (Table.ofList members).map fun _ => merged := by
  refine Table.ext_get? fun name => ?_
  rw [Table.get?_map, Table.get?_ofList, Table.get?_ofList, mergedMembers_eq_map,
    ← List.map_reverse]
  exact Table.find?_map (fun _ => merged) members.reverse

theorem LastWins.merged_eq {value value' : Json} (h : LastWins value value') :
    value.merged = value' := by
  induction h with
  | null => rfl
  | boolean b => rfl
  | number n => rfl
  | string s => rfl
  | array _ ih =>
    rw [merged, mergedItems_eq_map, List.map_map]
    exact congrArg Json.array (List.map_congr_left ih)
  | @object members last hsorted hlast _ ih =>
    let kept : Table String Json :=
      ⟨last.map fun m => (m.1, m.2.1), List.pairwise_map.2 hsorted⟩
    have hkept : Table.ofList members = kept :=
      Table.ext_get? fun name => (Table.get?_ofList members name).trans (hlast name)
    have hentries : (kept.map fun _ => merged).entries = last.map fun m => (m.1, m.2.2) := by
      refine List.map_map.trans (List.map_congr_left fun m hm => ?_)
      exact congrArg (m.1, ·) (ih m hm)
    rw [merged, ofList_mergedMembers, hkept, hentries]

mutual

theorem lastWins_merged : (value : Json) → LastWins value value.merged
  | .null => .null
  | .boolean b => .boolean b
  | .number n => .number n
  | .string s => .string s
  | .array items => by
    have hitems := @LastWins.array (items.map fun item => (item, item.merged))
      (List.forall_mem_map.2 (lastWins_of_mem_items items))
    have hself : (items.map fun item => (item, item.merged)).map (·.1) = items :=
      List.map_map.trans (List.map_id' items)
    rw [hself, List.map_map] at hitems
    rw [merged, mergedItems_eq_map]
    exact hitems
  | .object members => by
    let last := (Table.ofList members).entries.map fun m => (m.1, m.2, m.2.merged)
    have hlast (name : String) : Table.find? name members.reverse =
        Table.find? name (last.map fun m => (m.1, m.2.1)) := by
      rw [← Table.get?_ofList, List.map_map]
      exact congrArg (Table.find? name) (List.map_id' _).symm
    have hobject := LastWins.object (List.pairwise_map.2 (Table.ofList members).ascending) hlast
      (List.forall_mem_map.2 fun m hm =>
        lastWins_of_mem_members members m (Table.mem_of_mem_ofList hm))
    rw [List.map_map] at hobject
    rw [merged, ofList_mergedMembers]
    exact hobject

theorem lastWins_of_mem_items : (items : List Json) → ∀ item ∈ items, LastWins item item.merged
  | [], _, h => nomatch h
  | item :: items, _, h => by
    rcases List.mem_cons.1 h with h | h
    · rw [h]
      exact lastWins_merged item
    · exact lastWins_of_mem_items items _ h

theorem lastWins_of_mem_members :
    (members : List (String × Json)) → ∀ m ∈ members, LastWins m.2 m.2.merged
  | [], _, h => nomatch h
  | (_, value) :: members, _, h => by
    rcases List.mem_cons.1 h with h | h
    · rw [h]
      exact lastWins_merged value
    · exact lastWins_of_mem_members members _ h

end

theorem lastWins_iff {value value' : Json} : LastWins value value' ↔ value.merged = value' :=
  ⟨LastWins.merged_eq, fun h => h ▸ lastWins_merged value⟩

/-- A member that may be missing is resolved by merging it. -/
theorem rel_lastWins_iff {value? value'? : Option Json} :
    Option.Rel LastWins value? value'? ↔ value?.map merged = value'? := by
  refine ⟨fun h => ?_, fun h => ?_⟩
  · cases h with
    | none => rfl
    | some h => exact congrArg some h.merged_eq
  · subst h
    cases value? with
    | none => exact .none
    | some value => exact .some (lastWins_merged value)

end VarSubst.Json
