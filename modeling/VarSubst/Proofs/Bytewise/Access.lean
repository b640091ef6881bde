import VarSubst.Proofs.ByteOrder
import VarSubst.Proofs.Scan

/-!
# Access to the bytes of a text

A position in a text may lie behind its end or inside a character, and a count may fall below zero;
here each access and each subtraction is checked, and `Fault` says what went wrong.

`Stands text pos cs` says that the characters `cs` are what is left of a text from byte `pos` on.
Then `pos` is a boundary of characters, and what is read there is told by `cs`.
-/

namespace VarSubst.Bytewise

inductive Fault where
  /-- Byte `pos` was asked for, or the bytes from there on, where there are no more than `size`. -/
  | index (pos size : Nat)
  /-- The bounds of a slice are not in order, lie behind the end or inside a character. -/
  | slice (start stop : Nat)
  /-- A count was to fall below zero. -/
  | belowZero
  /-- The search does not get on. -/
  | stuck (pos : Nat)
  /-- A text is expanded deeper than the bound allows. -/
  | tooDeep (depth : UInt64)
  /-- There is no greater depth. -/
  | deepest
  deriving DecidableEq, Repr

/-! ## Accesses -/

/-- A position or a count, neither of which goes beyond the size of the text. -/
def within (size n : Nat) : Except Fault Nat :=
  if n ≤ size then .ok n else .error (.index n size)

def oneLess : Nat → Except Fault Nat
  | 0 => .error .belowZero
  | n + 1 => .ok n

def byteAt (bytes : Bytes) (pos : Nat) : Except Fault UInt8 :=
  match bytes[pos]? with
  | some b => .ok b
  | none => .error (.index pos bytes.length)

def bytesFrom (bytes : Bytes) (pos : Nat) : Except Fault Bytes :=
  if pos ≤ bytes.length then .ok (bytes.drop pos) else .error (.index pos bytes.length)

/-- The part of a text between two bytes, both of which begin a character or end the text. -/
def slice (text : String) (start stop : Nat) : Except Fault String :=
  if h : start ≤ stop ∧ String.Pos.Raw.isValid text ⟨start⟩ ∧ String.Pos.Raw.isValid text ⟨stop⟩ then
    .ok (text.extract ⟨⟨start⟩, String.Pos.Raw.isValid_eq_true_iff.1 h.2.1⟩
      ⟨⟨stop⟩, String.Pos.Raw.isValid_eq_true_iff.1 h.2.2⟩)
  else .error (.slice start stop)

/-- The character with the code of a byte; for a byte of a longer form it is none of ASCII. -/
def letterAt? (bytes : Bytes) (pos : Nat) : Option Char := bytes[pos]?.map Char.ofUInt8

@[simp] theorem ok_bind {α β : Type} (a : α) (f : α → Except Fault β) : Except.ok a >>= f = f a :=
  rfl

@[simp] theorem pure_eq_ok {α : Type} (a : α) : (pure a : Except Fault α) = .ok a := rfl

theorem within_of_le {size n : Nat} (h : n ≤ size) : within size n = .ok n := if_pos h

/-! ## Bytes of characters -/

def Ascii (c : Char) : Prop := c.val.toNat < 0x80

instance : DecidablePred Ascii := fun c => inferInstanceAs (Decidable (c.val.toNat < 0x80))

theorem isDefaultChar_ascii {c : Char} (h : isDefaultChar c) : Ascii c := by
  have hbelow {bound : UInt32} (h : c.val ≤ bound) (hbound : bound.toNat < 0x80) : Ascii c :=
    Nat.lt_of_le_of_lt (UInt32.le_iff_toNat_le.1 h) hbound
  have hletter (h : c.isAlphanum) : Ascii c := by
    rcases Bool.or_eq_true_iff.1 h with h | hdigit
    · rcases Bool.or_eq_true_iff.1 h with hupper | hlower
      · exact hbelow (of_decide_eq_true hupper).2 (by decide)
      · exact hbelow (of_decide_eq_true (Bool.and_eq_true_iff.1 hlower).2) (by decide)
    · exact hbelow (of_decide_eq_true (Bool.and_eq_true_iff.1 hdigit).2) (by decide)
  simp only [isDefaultChar, Bool.or_eq_true, beq_iff_eq] at h
  rcases h with (((h | rfl) | rfl) | rfl) | rfl
  · exact hletter h
  all_goals decide

theorem isKeyChar_ascii {c : Char} (h : isKeyChar c) : Ascii c :=
  isDefaultChar_ascii (isDefaultChar_of_isKeyChar h)

/-- The UTF-8 form of characters. -/
def encode (cs : List Char) : Bytes := cs.flatMap String.utf8EncodeChar

theorem encode_cons (c : Char) (cs : List Char) :
    encode (c :: cs) = String.utf8EncodeChar c ++ encode cs := List.flatMap_cons

theorem exists_encode_cons (c : Char) (cs : List Char) :
    ∃ b ∈ String.utf8EncodeChar c, ∃ bytes, encode (c :: cs) = b :: bytes := by
  obtain ⟨b, bytes, hbytes⟩ := List.exists_cons_of_ne_nil (String.utf8EncodeChar_ne_nil (c := c))
  exact ⟨b, by simp [hbytes], bytes ++ encode cs, by rw [encode_cons, hbytes, List.cons_append]⟩

theorem encode_append (cs ds : List Char) : encode (cs ++ ds) = encode cs ++ encode ds :=
  List.flatMap_append

theorem length_encode (cs : List Char) : (encode cs).length = Text.byteSize cs := by
  induction cs with
  | nil => rfl
  | cons c cs ih =>
    rw [encode_cons, List.length_append, String.length_utf8EncodeChar, ih, Text.byteSize_cons]

namespace Ascii

variable {c : Char}

theorem utf8Size (hc : Ascii c) : c.utf8Size = 1 := by
  rw [Char.utf8Size_eq_one_iff, UInt32.le_iff_toNat_le]
  exact Nat.le_of_lt_succ hc

theorem utf8EncodeChar (hc : Ascii c) : String.utf8EncodeChar c = [c.val.toUInt8] :=
  String.utf8EncodeChar_eq_singleton hc.utf8Size

theorem encode_cons (hc : Ascii c) (cs : List Char) :
    encode (c :: cs) = c.val.toUInt8 :: encode cs := by
  rw [Bytewise.encode_cons, hc.utf8EncodeChar, List.singleton_append]

theorem ofUInt8 (hc : Ascii c) : Char.ofUInt8 c.val.toUInt8 = c := by
  apply Char.ext
  apply UInt32.toNat_inj.1
  change c.val.toUInt8.toUInt32.toNat = c.val.toNat
  rw [UInt8.toNat_toUInt32, UInt32.toNat_toUInt8]
  exact Nat.mod_eq_of_lt (Nat.lt_trans hc (by decide))

end Ascii

theorem le_toNat_of_mem_utf8EncodeChar {c : Char} {b : UInt8} (hc : ¬Ascii c)
    (hb : b ∈ String.utf8EncodeChar c) : 0x80 ≤ b.toNat := by
  have hc : 0x80 ≤ c.val.toNat := Nat.not_lt.1 hc
  have hlt : c.val.toNat < 0x110000 := by
    rcases c.valid with h | h
    · exact Nat.lt_trans h (by decide)
    · exact h.2
  rw [String.utf8EncodeChar.eq_1] at hb
  generalize c.val.toNat = n at *
  split_ifs at hb <;> simp at hb <;> rcases hb with rfl | rfl | rfl | rfl <;> simp <;> omega

/-- To a test of ASCII characters each byte of a character looks like the character itself. -/
theorem test_ofUInt8 {test : Char → Bool} (htest : ∀ c, test c → Ascii c) {c : Char} {b : UInt8}
    (hb : b ∈ String.utf8EncodeChar c) : test (Char.ofUInt8 b) = test c := by
  by_cases hc : Ascii c
  · rw [hc.utf8EncodeChar, List.mem_singleton] at hb
    rw [hb, hc.ofUInt8]
  · have hb : ¬Ascii (Char.ofUInt8 b) := Nat.not_lt.2 (le_toNat_of_mem_utf8EncodeChar hc hb)
    rw [Bool.eq_false_iff.2 (mt (htest _) hb), Bool.eq_false_iff.2 (mt (htest _) hc)]

theorem ofUInt8_eq_iff {c d : Char} {b : UInt8} (hb : b ∈ String.utf8EncodeChar c)
    (hd : Ascii d) : Char.ofUInt8 b = d ↔ c = d := by
  have htest : ∀ c, (c == d) → Ascii c := by
    intro c hc
    rw [beq_iff_eq.1 hc]
    exact hd
  rw [← beq_iff_eq, test_ofUInt8 htest hb, beq_iff_eq]

/-! ## What stands at a byte -/

/-- The characters `cs` are what is left of the text from byte `pos` on. -/
def Stands (text : String) (pos : Nat) (cs : List Char) : Prop :=
  ∃ before, text.toList = before ++ cs ∧ Text.byteSize before = pos

theorem stands_zero (text : String) : Stands text 0 text.toList := ⟨[], rfl, rfl⟩

namespace Stands

variable {text : String} {pos : Nat} {c : Char} {cs written rest : List Char}

theorem advance (H : Stands text pos (written ++ rest)) :
    Stands text (pos + Text.byteSize written) rest := by
  obtain ⟨before, htext, rfl⟩ := H
  exact ⟨before ++ written, by rw [htext, List.append_assoc], Text.byteSize_append _ _⟩

theorem tail (H : Stands text pos (c :: cs)) : Stands text (pos + c.utf8Size) cs := by
  rw [← List.singleton_append] at H
  simpa using H.advance

theorem next (H : Stands text pos (c :: cs)) (hc : Ascii c) : Stands text (pos + 1) cs :=
  hc.utf8Size ▸ H.tail

/-- The key characters that stand first, and what stands behind them. -/
theorem split (H : Stands text pos cs) :
    Stands text pos (cs.takeWhile isKeyChar ++ cs.dropWhile isKeyChar) := by
  rwa [List.takeWhile_append_dropWhile]

theorem ofText_eq (H : Stands text pos cs) :
    ∃ before : Bytes, before.length = pos ∧ Bytes.ofText text = before ++ encode cs := by
  obtain ⟨before, htext, rfl⟩ := H
  exact ⟨encode before, length_encode before, by
    rw [Bytes.ofText_eq_flatMap, htext]; exact encode_append _ _⟩

theorem length_eq (H : Stands text pos cs) :
    (Bytes.ofText text).length = pos + Text.byteSize cs := by
  obtain ⟨before, hlength, htext⟩ := H.ofText_eq
  rw [htext, List.length_append, hlength, length_encode]

theorem within (H : Stands text pos cs) : within (Bytes.ofText text).length pos = .ok pos :=
  within_of_le (H.length_eq ▸ Nat.le_add_right _ _)

theorem bytesFrom (H : Stands text pos cs) : bytesFrom (.ofText text) pos = .ok (encode cs) := by
  obtain ⟨before, hlength, htext⟩ := H.ofText_eq
  rw [Bytewise.bytesFrom, if_pos (H.length_eq ▸ Nat.le_add_right _ _), htext, ← hlength,
    List.drop_left]

theorem getElem? (H : Stands text pos cs) : (Bytes.ofText text)[pos]? = (encode cs).head? := by
  obtain ⟨before, hlength, htext⟩ := H.ofText_eq
  rw [htext, ← hlength, List.getElem?_append_right (Nat.le_refl _), Nat.sub_self,
    List.head?_eq_getElem?]

theorem letterAt?_nil (H : Stands text pos []) : letterAt? (.ofText text) pos = none := by
  rw [letterAt?, H.getElem?]
  rfl

/-- A byte at which a character begins is one of its bytes. -/
theorem exists_letterAt? (H : Stands text pos (c :: cs)) :
    ∃ b ∈ String.utf8EncodeChar c, letterAt? (.ofText text) pos = some (Char.ofUInt8 b) := by
  obtain ⟨b, hb, bytes, hbytes⟩ := exists_encode_cons c cs
  refine ⟨b, hb, ?_⟩
  rw [letterAt?, H.getElem?, hbytes]
  rfl

theorem letterAt?_eq_some_iff (H : Stands text pos cs) {d : Char} (hd : Ascii d) :
    letterAt? (.ofText text) pos = some d ↔ cs.head? = some d := by
  cases cs with
  | nil => simp [H.letterAt?_nil]
  | cons c cs =>
    obtain ⟨b, hb, hletter⟩ := H.exists_letterAt?
    rw [hletter, Option.some.injEq, ofUInt8_eq_iff hb hd, List.head?_cons, Option.some.injEq]

theorem letterAt?_eq (H : Stands text pos (c :: cs)) (hc : Ascii c) :
    letterAt? (.ofText text) pos = some c := (H.letterAt?_eq_some_iff hc).2 rfl

theorem isValid (H : Stands text pos cs) : String.Pos.Raw.isValid text ⟨pos⟩ := by
  obtain ⟨before, htext, rfl⟩ := H
  rw [String.Pos.Raw.isValid_eq_true_iff, String.Pos.Raw.isValid_iff_exists_append]
  refine ⟨String.ofList before, String.ofList cs, ?_, ?_⟩
  · rw [← String.ofList_append, ← htext, String.ofList_toList]
  · rw [String.rawEndPos, Text.utf8ByteSize_ofList]

/-- What stands at a byte begins and ends at boundaries of characters. -/
theorem slice (H : Stands text pos (written ++ rest)) :
    slice text pos (pos + Text.byteSize written) = .ok (String.ofList written) := by
  rw [Bytewise.slice, dif_pos ⟨Nat.le_add_right _ _, H.isValid, H.advance.isValid⟩]
  obtain ⟨before, htext, rfl⟩ := H
  refine congrArg Except.ok (String.toByteArray_inj.1 ?_)
  rw [String.toByteArray_extract]
  exact Text.extract_toByteArray htext

/-- A character of two bytes is not cut. -/
example : Bytewise.slice "é" 0 1 = .error (.slice 0 1) := by decide

theorem slice_all (text : String) :
    Bytewise.slice text 0 (Bytes.ofText text).length = .ok text := by
  have H : Stands text 0 (text.toList ++ []) := by
    rw [List.append_nil]
    exact stands_zero text
  have hslice := H.slice
  rw [String.ofList_toList] at hslice
  rw [(stands_zero text).length_eq, hslice]

end Stands

end VarSubst.Bytewise
