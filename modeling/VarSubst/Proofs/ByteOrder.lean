import Mathlib.Tactic.SplitIfs
import VarSubst.Table
import VarSubst.Text.Bytes

/-!
# The order of texts

Texts are ordered by their characters, and their UTF-8 forms by their bytes. The two orders agree
(`Bytes.ofText_le_iff`): of two different characters the lesser has the lesser bytes.
-/

namespace VarSubst.Bytes

theorem cons_lt_cons {m n : Nat} {bytes bytes' : Bytes} (hm : m < 256) (hn : n < 256)
    (hle : m ≤ n) (h : m = n → bytes < bytes') :
    UInt8.ofNat m :: bytes < UInt8.ofNat n :: bytes' := by
  rw [List.cons_lt_cons_iff]
  rcases Nat.lt_or_eq_of_le hle with hlt | heq
  · exact .inl ((UInt8.ofNat_lt_iff_lt hm hn).2 hlt)
  · exact .inr ⟨congrArg UInt8.ofNat heq, h heq⟩

/-- Of two characters the lesser has the lesser bytes, whatever follows them. -/
theorem utf8EncodeChar_append_lt {c d : Char} (h : c < d) (bytes bytes' : Bytes) :
    String.utf8EncodeChar c ++ bytes < String.utf8EncodeChar d ++ bytes' := by
  have h : c.val.toNat < d.val.toNat := h
  have hd : d.val.toNat < 0x110000 := by
    rcases d.valid with h | h
    · exact Nat.lt_trans h (by decide)
    · exact h.2
  rw [String.utf8EncodeChar.eq_1, String.utf8EncodeChar.eq_1]
  generalize c.val.toNat = m at *
  generalize d.val.toNat = n at *
  -- `c` has no more bytes than `d`; where it has fewer, its first byte is the lesser
  split_ifs
  all_goals
    repeat refine cons_lt_cons (by omega) (by omega) (by omega) fun _ => ?_
    omega

theorem flatMap_utf8EncodeChar_lt {cs ds : List Char} (h : cs < ds) :
    cs.flatMap String.utf8EncodeChar < ds.flatMap String.utf8EncodeChar := by
  induction cs generalizing ds with
  | nil =>
    cases ds with
    | nil => exact absurd h (List.lt_irrefl [])
    | cons d ds =>
      obtain ⟨byte, bytes, hbytes⟩ := List.exists_cons_of_ne_nil String.utf8EncodeChar_ne_nil
      rw [List.flatMap_cons, hbytes]
      exact List.nil_lt_cons byte _
  | cons c cs ih =>
    cases ds with
    | nil => exact absurd h (List.not_lt_nil _)
    | cons d ds =>
      rcases List.cons_lt_cons_iff.1 h with hlt | ⟨rfl, hlt⟩
      · exact utf8EncodeChar_append_lt hlt _ _
      · exact List.append_left_lt (ih hlt)

theorem ofText_lt_iff {a b : String} : ofText a < ofText b ↔ a < b := by
  have hmono {a b : String} (h : a < b) : ofText a < ofText b := by
    rw [ofText_eq_flatMap, ofText_eq_flatMap]
    exact flatMap_utf8EncodeChar_lt h
  refine ⟨fun h => ?_, hmono⟩
  refine Decidable.byContradiction fun hnot => ?_
  rcases Decidable.em (a = b) with rfl | hne
  · exact List.lt_irrefl _ h
  · exact List.lt_asymm h (hmono (Table.lt_of_not_lt_of_ne hnot hne))

theorem ofText_le_iff {a b : String} : ofText a ≤ ofText b ↔ a ≤ b := not_congr ofText_lt_iff

end VarSubst.Bytes
