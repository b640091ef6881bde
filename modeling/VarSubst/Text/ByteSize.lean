/-!
# Sizes in bytes
-/

namespace VarSubst.Text

/-- The number of bytes that characters take in UTF-8. -/
def byteSize (cs : List Char) : Nat := cs.foldr (fun c n => c.utf8Size + n) 0

@[simp] theorem byteSize_nil : byteSize [] = 0 := rfl

@[simp] theorem byteSize_cons (c : Char) (cs : List Char) :
    byteSize (c :: cs) = c.utf8Size + byteSize cs := rfl

@[simp] theorem byteSize_append (cs ds : List Char) :
    byteSize (cs ++ ds) = byteSize cs + byteSize ds := by
  induction cs with
  | nil => simp
  | cons c cs ih => simp [ih, Nat.add_assoc]

@[simp] theorem byteSize_reverse (cs : List Char) : byteSize cs.reverse = byteSize cs := by
  induction cs with
  | nil => rfl
  | cons c cs ih => simp [ih, Nat.add_comm]

/-- The size is that of the string made of the characters. -/
theorem utf8ByteSize_ofList (cs : List Char) : (String.ofList cs).utf8ByteSize = byteSize cs := by
  induction cs with
  | nil => rfl
  | cons c cs ih =>
    have hc : (String.ofList [c]).utf8ByteSize = c.utf8Size := by
      rw [← String.singleton_eq_ofList, String.utf8ByteSize_singleton]
    rw [← List.singleton_append, String.ofList_append, String.utf8ByteSize_append, ih, hc]
    rfl

theorem byteSize_pos {cs : List Char} (h : cs ≠ []) : 0 < byteSize cs := by
  obtain ⟨c, cs, rfl⟩ := List.exists_cons_of_ne_nil h
  have := c.utf8Size_pos
  rw [byteSize_cons]
  omega

/-- A number of bytes is the size of one beginning of a text at most. -/
theorem append_inj_of_byteSize_eq {cs ds rest rest' : List Char} (h : cs ++ rest = ds ++ rest')
    (hsize : byteSize cs = byteSize ds) : cs = ds ∧ rest = rest' := by
  have hnil {inside : List Char} (h : byteSize inside = 0) : inside = [] :=
    Decidable.byContradiction fun hne => Nat.ne_of_gt (byteSize_pos hne) h
  rcases List.append_eq_append_iff.1 h with ⟨inside, rfl, rfl⟩ | ⟨inside, rfl, rfl⟩
  · rw [byteSize_append] at hsize
    simp [hnil (by omega : byteSize inside = 0)]
  · rw [byteSize_append] at hsize
    simp [hnil (by omega : byteSize inside = 0)]

end VarSubst.Text
