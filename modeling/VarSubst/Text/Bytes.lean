/-!
# Texts as bytes

The UTF-8 form of a text, and the text of bytes that are one. In this form the bytes of ASCII
characters stand for nothing else.
-/

namespace VarSubst

abbrev Bytes := List UInt8

namespace Bytes

/-- The UTF-8 form of a text. -/
def ofText (text : String) : Bytes := text.toUTF8.data.toList

/-- The text whose UTF-8 form the bytes are, if they are one. -/
def text? (bytes : Bytes) : Option String := String.fromUTF8? ⟨bytes.toArray⟩

variable {bytes : Bytes} {text text' : String}

theorem text?_ofText (text : String) : (ofText text).text? = some text := by
  simp only [ofText, text?, Array.toArray_toList]
  unfold String.fromUTF8?
  split
  · rfl
  · next h => exact absurd text.isValidUTF8 h

theorem text?_eq_some_iff : bytes.text? = some text ↔ bytes = ofText text := by
  constructor
  · intro h
    unfold text? String.fromUTF8? at h
    split at h
    · cases h
      rfl
    · cases h
  · rintro rfl
    exact text?_ofText text

theorem ofText_inj : ofText text = ofText text' ↔ text = text' := by
  rw [← text?_eq_some_iff, text?_ofText, Option.some.injEq]

theorem ofText_eq_flatMap (text : String) :
    ofText text = text.toList.flatMap String.utf8EncodeChar := by
  rw [ofText, String.toUTF8_eq_toByteArray, ← String.utf8Encode_toList]
  simp [List.utf8Encode]

theorem ofText_eq_nil_iff : ofText text = [] ↔ text = "" := by
  rw [ofText_eq_flatMap, List.flatMap_eq_nil_iff, ← String.toList_eq_nil_iff]
  simp only [String.utf8EncodeChar_ne_nil, imp_false, ← List.eq_nil_iff_forall_not_mem]

/-- The byte of an ASCII character is in the form of this character only. -/
theorem mem_utf8EncodeChar_iff {c d : Char} (hd : d.val.toNat < 0x80) :
    UInt8.ofNat d.val.toNat ∈ String.utf8EncodeChar c ↔ d = c := by
  have hc : c.val.toNat < 0x110000 := by
    rcases c.valid with h | h
    · exact Nat.lt_trans h (by decide)
    · exact h.2
  have heq : d = c ↔ d.val.toNat = c.val.toNat := by rw [UInt32.toNat_inj, Char.val_inj]
  rw [heq, String.utf8EncodeChar.eq_1]
  generalize c.val.toNat = m at *
  generalize d.val.toNat = n at *
  repeat' split
  all_goals
    simp [← UInt8.toNat_inj]
    omega

theorem mem_ofText_iff {c : Char} (hc : c.val.toNat < 0x80) :
    UInt8.ofNat c.val.toNat ∈ ofText text ↔ c ∈ text.toList := by
  rw [ofText_eq_flatMap, List.mem_flatMap]
  simp only [mem_utf8EncodeChar_iff hc, exists_eq_right']

end Bytes

end VarSubst
