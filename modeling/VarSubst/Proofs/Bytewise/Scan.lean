import VarSubst.Proofs.Bytewise.Access

/-!
# Searching the bytes of a text

The references of a text can be found byte by byte. The search never faults, and it finds the
references of the text (`Bytewise.references_eq`): where a character begins it does what is done to
that character, and the other bytes of a character are passed over, since none of them looks like a
dollar.
-/

namespace VarSubst.Bytewise

/-! ## The search -/

/-- The position behind the key characters that stand at `start`. -/
def keyEnd (bytes : Bytes) (start : Nat) : Except Fault Nat := do
  let rest ← bytesFrom bytes start
  match rest.findIdx? fun b => !isKeyChar (Char.ofUInt8 b) with
  | some offset => within bytes.length (start + offset)
  | none => return bytes.length

/-- The position of the brace that closes a default, which goes on inside `depth` braces with the
bytes at `pos`; `size` is the size of the whole text. -/
def closingBrace? (size depth pos : Nat) : Bytes → Except Fault (Option Nat)
  | [] => return none
  | b :: rest => do
    let c := Char.ofUInt8 b
    if c = '{' then closingBrace? size (← within size (depth + 1)) (← within size (pos + 1)) rest
    else if c = '}' ∧ depth = 0 then return some pos
    else if c = '}' then closingBrace? size (← oneLess depth) (← within size (pos + 1)) rest
    else if isDefaultChar c then closingBrace? size depth (← within size (pos + 1)) rest
    else return none

/-- The reference whose default stands at `pos`. -/
def scanDefault? (text : String) (start : Nat) (key : String) (colon : Bool) (pos : Nat) :
    Except Fault (Option Placed) := do
  let bytes := Bytes.ofText text
  match ← closingBrace? bytes.length 0 pos (← bytesFrom bytes pos) with
  | none => return none
  | some close =>
    if close = pos then return none
    let body ← slice text pos close
    let stop ← within bytes.length (close + 1)
    return some ⟨⟨key, .withDefault colon body⟩, start, stop⟩

/-- The reference to `key`, which ends at `keyStop`, in the form that stands behind it. -/
def scanForm? (text : String) (start : Nat) (key : String) (keyStop : Nat) :
    Except Fault (Option Placed) := do
  let bytes := Bytes.ofText text
  match letterAt? bytes keyStop with
  | none => return none
  | some c =>
    let next ← within bytes.length (keyStop + 1)
    if c = '}' then return some ⟨⟨key, .braced⟩, start, next⟩
    else if c = ':' ∧ letterAt? bytes next = some '-' then
      scanDefault? text start key true (← within bytes.length (keyStop + 2))
    else if c = '-' then scanDefault? text start key false next
    else return none

/-- The braced reference at `start`. -/
def scanBraced? (text : String) (start : Nat) : Except Fault (Option Placed) := do
  let bytes := Bytes.ofText text
  let keyStart ← within bytes.length (start + 2)
  let keyStop ← keyEnd bytes keyStart
  if keyStop = keyStart then return none
  let key ← slice text keyStart keyStop
  scanForm? text start key keyStop

/-- The reference at `start`, where there is a dollar. -/
def scanReference? (text : String) (start : Nat) : Except Fault (Option Placed) := do
  let bytes := Bytes.ofText text
  let keyStart ← within bytes.length (start + 1)
  match letterAt? bytes keyStart with
  | none => return none
  | some c =>
    if c = '{' then scanBraced? text start
    else if isKeyChar c then
      let stop ← keyEnd bytes keyStart
      let key ← slice text keyStart stop
      return some ⟨⟨key, .bare⟩, start, stop⟩
    else return none

/-- The references from byte `pos` on. -/
def referencesFrom (text : String) (pos : Nat) : Except Fault (List Placed) :=
  if hpos : pos < (Bytes.ofText text).length then do
    let b ← byteAt (.ofText text) pos
    if Char.ofUInt8 b = '$' then
      match ← scanReference? text pos with
      | some p =>
        if pos < p.stop then return p :: (← referencesFrom text p.stop)
        else throw (.stuck pos)
      | none => referencesFrom text (pos + 1)
    else referencesFrom text (pos + 1)
  else return []
termination_by (Bytes.ofText text).length - pos

def references (text : String) : Except Fault (List Placed) := referencesFrom text 0

/-! ## What is found -/

theorem findIdx?_encode (cs : List Char) :
    ((encode cs).findIdx? fun b => !isKeyChar (Char.ofUInt8 b)).getD (encode cs).length =
      Text.byteSize (cs.takeWhile isKeyChar) := by
  induction cs with
  | nil => rfl
  | cons c cs ih =>
    by_cases hc : isKeyChar c
    · have hascii := isKeyChar_ascii hc
      rw [hascii.encode_cons, List.findIdx?_cons, hascii.ofUInt8, hc, List.takeWhile_cons_of_pos hc,
        Text.byteSize_cons, hascii.utf8Size, ← ih, List.length_cons]
      cases (encode cs).findIdx? _ <;> simp [Nat.add_comm]
    · obtain ⟨b, hb, bytes, hbytes⟩ := exists_encode_cons c cs
      rw [hbytes, List.findIdx?_cons, test_ofUInt8 @isKeyChar_ascii hb,
        List.takeWhile_cons_of_neg hc]
      simp [hc]

theorem keyEnd_eq {text : String} {pos : Nat} {cs : List Char} (H : Stands text pos cs) :
    keyEnd (.ofText text) pos = .ok (pos + Text.byteSize (cs.takeWhile isKeyChar)) := by
  have hfind := findIdx?_encode cs
  rw [keyEnd, H.bytesFrom, ok_bind]
  split
  · next offset h =>
    rw [h, Option.getD_some] at hfind
    rw [hfind]
    exact H.split.advance.within
  · next h =>
    rw [h, Option.getD_none] at hfind
    rw [H.length_eq, ← length_encode, hfind]
    rfl

/-- The brace is looked for as a default is read, `before` being what stands between `origin` and
`pos`. -/
theorem closingBrace?_eq {size origin pos depth : Nat} {before cs : List Char}
    (hpos : pos = origin + Text.byteSize before) (hsize : pos + Text.byteSize cs ≤ size)
    (hdepth : depth ≤ pos) :
    closingBrace? size depth pos (encode cs) =
      .ok ((Reference.readBody? before depth cs).map fun body => origin + body.utf8ByteSize) := by
  -- each brace is a byte, so that no more are open than there are bytes in front
  have hnext {c : Char} (hc : Ascii c) {before cs : List Char} {pos : Nat}
      (hpos : pos = origin + Text.byteSize before) (hsize : pos + Text.byteSize (c :: cs) ≤ size) :
      pos + 1 = origin + Text.byteSize (c :: before) ∧ pos + 1 + Text.byteSize cs ≤ size := by
    rw [Text.byteSize_cons, hc.utf8Size] at *
    omega
  fun_induction Reference.readBody? before depth cs generalizing pos with
  | case1 => rfl
  | case2 before cs =>
    rw [Ascii.encode_cons (by decide), closingBrace?, Ascii.ofUInt8 (by decide)]
    simp [Text.utf8ByteSize_ofList, hpos]
  | case3 before depth cs ih =>
    obtain ⟨hpos, hsize⟩ := hnext (by decide) hpos hsize
    rw [Ascii.encode_cons (by decide), closingBrace?, Ascii.ofUInt8 (by decide)]
    rw [if_neg (by decide), if_neg (by simp), if_pos rfl, oneLess, within_of_le (by omega)]
    exact ih hpos hsize (by omega)
  | case4 before depth cs h0 h1 ih =>
    obtain ⟨hpos, hsize⟩ := hnext (by decide) hpos hsize
    rw [Ascii.encode_cons (by decide), closingBrace?, Ascii.ofUInt8 (by decide)]
    rw [if_pos rfl, within_of_le (by omega), within_of_le (by omega)]
    exact ih hpos hsize (by omega)
  | case5 before depth c cs h0 h1 hopen hchar ih =>
    have hclose := isDefaultChar_ne_close hchar
    have hc := isDefaultChar_ascii hchar
    obtain ⟨hpos, hsize⟩ := hnext hc hpos hsize
    rw [hc.encode_cons, closingBrace?, hc.ofUInt8, if_neg hopen, if_neg (by simp [hclose]),
      if_neg hclose, if_pos hchar, within_of_le (by omega)]
    exact ih hpos hsize (by omega)
  | case6 before depth c cs h0 h1 hopen hchar =>
    have hclose : c ≠ '}' := by
      rintro rfl
      cases depth with
      | zero => exact h0 rfl rfl
      | succ depth => exact h1 depth rfl rfl
    obtain ⟨b, hb, bytes, hbytes⟩ := exists_encode_cons c cs
    rw [hbytes, closingBrace?]
    simp only [ofUInt8_eq_iff hb (show Ascii '{' by decide),
      ofUInt8_eq_iff hb (show Ascii '}' by decide), test_ofUInt8 @isDefaultChar_ascii hb]
    simp [hopen, hclose, hchar]

section

variable {text key : String} {start pos : Nat} {colon : Bool} {cs : List Char}

/-- The reference that begins at `start`. -/
def placedAt (start : Nat) (r : Reference) : Placed := ⟨r, start, start + Text.byteSize r.render⟩

theorem scanDefault?_eq (H : Stands text pos cs) :
    scanDefault? text start key colon pos =
      .ok ((Reference.readDefault? cs).map fun body =>
        ⟨⟨key, .withDefault colon body⟩, start, pos + Text.byteSize body.toList + 1⟩) := by
  have hclose : closingBrace? (Bytes.ofText text).length 0 pos (encode cs) =
      .ok ((Reference.readBody? [] 0 cs).map fun body => pos + body.utf8ByteSize) :=
    closingBrace?_eq rfl (Nat.le_of_eq H.length_eq.symm) (Nat.zero_le pos)
  rw [scanDefault?, H.bytesFrom, ok_bind, hclose, ok_bind, Reference.readDefault?]
  cases hbody : Reference.readBody? [] 0 cs with
  | none => rfl
  | some body =>
    obtain ⟨inner, rest, rfl, -, rfl⟩ := Reference.readBody?_eq_some_iff.1 hbody
    rw [Option.map_some, List.reverse_nil, List.nil_append]
    by_cases hempty : inner = []
    · subst hempty
      simp [Option.filter]
    · have hsize := Text.byteSize_pos hempty
      have hbehind : Stands text (pos + Text.byteSize inner + 1) rest := H.advance.next (by decide)
      simp [Option.filter, Text.utf8ByteSize_ofList, hempty, H.slice, hbehind.within]
      omega

theorem utf8Size_signs : '$'.utf8Size = 1 ∧ '{'.utf8Size = 1 ∧ '}'.utf8Size = 1 ∧
    ':'.utf8Size = 1 ∧ '-'.utf8Size = 1 := by decide

@[simp] theorem placedAt_bare (start : Nat) (key : String) :
    placedAt start ⟨key, .bare⟩ = ⟨⟨key, .bare⟩, start, start + 1 + Text.byteSize key.toList⟩ := by
  refine congrArg (Placed.mk _ start) ?_
  simp [Reference.render, utf8Size_signs, Nat.add_assoc]

@[simp] theorem placedAt_braced (start : Nat) (key : String) :
    placedAt start ⟨key, .braced⟩ =
      ⟨⟨key, .braced⟩, start, start + 2 + Text.byteSize key.toList + 1⟩ := by
  refine congrArg (Placed.mk _ start) ?_
  simp [Reference.render, utf8Size_signs]
  omega

@[simp] theorem placedAt_withDefault (start : Nat) (key : String) (colon : Bool) (body : String) :
    placedAt start ⟨key, .withDefault colon body⟩ =
      ⟨⟨key, .withDefault colon body⟩, start,
        start + 2 + Text.byteSize key.toList + (if colon then 2 else 1) +
          Text.byteSize body.toList + 1⟩ := by
  refine congrArg (Placed.mk _ start) ?_
  cases colon <;> simp [Reference.render, utf8Size_signs] <;> omega

theorem scanForm?_eq (H : Stands text pos cs) (hpos : pos = start + 2 + Text.byteSize key.toList) :
    scanForm? text start key pos =
      .ok ((Reference.readForm? cs).map fun form => placedAt start ⟨key, form⟩) := by
  subst hpos
  rw [scanForm?]
  fun_cases Reference.readForm? cs with
  | case1 rest =>
    rw [H.letterAt?_eq (by decide)]
    simp [(H.next (by decide)).within]
  | case2 rest =>
    have Hdash := H.next (by decide)
    have Hbody := Hdash.next (by decide)
    rw [H.letterAt?_eq (by decide)]
    simp only [Hdash.within, ok_bind, Hdash.letterAt?_eq (show Ascii '-' by decide)]
    rw [if_neg (by decide), if_pos (by decide), Hbody.within, ok_bind, scanDefault?_eq Hbody]
    simp [Function.comp_def]
  | case3 rest =>
    have Hbody := H.next (by decide)
    rw [H.letterAt?_eq (by decide)]
    simp [Hbody.within, scanDefault?_eq Hbody, Function.comp_def]
  | case4 _ hclose hcolon hdash =>
    cases cs with
    | nil =>
      rw [H.letterAt?_nil]
      rfl
    | cons c rest =>
      obtain ⟨b, hb, hletter⟩ := H.exists_letterAt?
      -- only behind a colon, which is one byte, is the next byte looked at
      have hnotColon : ¬(c = ':' ∧ letterAt? (.ofText text)
          (start + 2 + Text.byteSize key.toList + 1) = some '-') := by
        rintro ⟨rfl, h⟩
        rw [(H.next (by decide)).letterAt?_eq_some_iff (by decide)] at h
        obtain ⟨cs, rfl⟩ := List.head?_eq_some_iff.1 h
        exact hcolon cs rfl
      have hc := c.utf8Size_pos
      rw [hletter]
      simp only [ofUInt8_eq_iff hb (show Ascii '}' by decide),
        ofUInt8_eq_iff hb (show Ascii ':' by decide), ofUInt8_eq_iff hb (show Ascii '-' by decide)]
      rw [within_of_le (by rw [H.length_eq, Text.byteSize_cons]; omega), ok_bind,
        if_neg (fun h => hclose rest (by rw [h])), if_neg hnotColon,
        if_neg (fun h => hdash rest (by rw [h]))]
      rfl

theorem scanBraced?_eq (H : Stands text start ('$' :: '{' :: cs)) :
    scanBraced? text start =
      .ok ((Reference.ofPrefix? ('$' :: '{' :: cs)).map (placedAt start)) := by
  have Hkey : Stands text (start + 2) cs := (H.next (by decide)).next (by decide)
  rw [scanBraced?, Hkey.within, ok_bind, keyEnd_eq Hkey, ok_bind, Reference.ofPrefix?,
    Reference.readKey?]
  have hsplit := Hkey.split
  generalize cs.takeWhile isKeyChar = written at *
  generalize cs.dropWhile isKeyChar = rest at *
  by_cases hempty : written = []
  · subst hempty
    simp
  · have hsize := Text.byteSize_pos hempty
    rw [if_neg (by omega), hsplit.slice, ok_bind, scanForm?_eq hsplit.advance (by simp)]
    simp only [Option.bind_eq_bind, Option.bind_some]
    cases Reference.readForm? rest <;> rfl

theorem scanReference?_eq (H : Stands text start ('$' :: cs)) :
    scanReference? text start = .ok ((Reference.ofPrefix? ('$' :: cs)).map (placedAt start)) := by
  have Hkey := H.next (by decide)
  rw [scanReference?, Hkey.within, ok_bind]
  cases cs with
  | nil =>
    rw [Hkey.letterAt?_nil]
    rfl
  | cons c cs =>
    obtain ⟨b, hb, hletter⟩ := Hkey.exists_letterAt?
    rw [hletter]
    simp only [ofUInt8_eq_iff hb (show Ascii '{' by decide), test_ofUInt8 @isKeyChar_ascii hb]
    by_cases hopen : c = '{'
    · subst hopen
      rw [if_pos rfl, scanBraced?_eq H]
    · rw [if_neg hopen, Reference.ofPrefix?, Reference.readKey?, keyEnd_eq Hkey, ok_bind,
        Hkey.split.slice]
      · by_cases hc : isKeyChar c <;> simp [hc]
      · rintro cs ⟨⟩
        exact hopen rfl

end

section

variable {text : String} {pos : Nat} {cs : List Char}

/-- Bytes other than a dollar are passed over. -/
theorem referencesFrom_skip {skipped before after : Bytes}
    (htext : Bytes.ofText text = before ++ (skipped ++ after))
    (hskipped : ∀ b ∈ skipped, Char.ofUInt8 b ≠ '$') :
    referencesFrom text before.length = referencesFrom text (before.length + skipped.length) := by
  induction skipped generalizing before with
  | nil => rfl
  | cons b skipped ih =>
    have hlt : before.length < (Bytes.ofText text).length := by
      simp [htext]
    have hbyte : byteAt (.ofText text) before.length = .ok b := by
      rw [byteAt, htext, List.getElem?_append_right (Nat.le_refl _), Nat.sub_self]
      rfl
    have ih : referencesFrom text (before ++ [b]).length = _ :=
      ih (by simpa using htext) fun b hb => hskipped b (List.mem_cons_of_mem _ hb)
    rw [List.length_append, List.length_singleton] at ih
    rw [referencesFrom, dif_pos hlt, hbyte, ok_bind, if_neg (hskipped b List.mem_cons_self), ih,
      List.length_cons, Nat.add_assoc, Nat.add_comm 1]

/-- A dollar begins the reference that is read there, or it is passed over. -/
theorem referencesFrom_dollar (H : Stands text pos ('$' :: cs)) :
    referencesFrom text pos = match Reference.ofPrefix? ('$' :: cs) with
      | some r => (referencesFrom text (placedAt pos r).stop).map (placedAt pos r :: ·)
      | none => referencesFrom text (pos + 1) := by
  have hbyte : byteAt (.ofText text) pos = .ok ('$' : Char).val.toUInt8 := by
    rw [byteAt, H.getElem?]
    rfl
  have hlt : pos < (Bytes.ofText text).length := by
    rw [H.length_eq, Text.byteSize_cons, utf8Size_signs.1]
    omega
  rw [referencesFrom, dif_pos hlt, hbyte, ok_bind, Ascii.ofUInt8 (by decide), if_pos rfl,
    scanReference?_eq H, ok_bind]
  cases Reference.ofPrefix? ('$' :: cs) with
  | none => rfl
  | some r =>
    have hlt : pos < (placedAt pos r).stop :=
      Nat.lt_add_of_pos_right (Text.byteSize_pos r.render_ne_nil)
    rw [Option.map_some]
    dsimp only
    rw [if_pos hlt]
    cases referencesFrom text (placedAt pos r).stop <;> rfl

theorem referencesFrom_eq (H : Stands text pos cs) :
    referencesFrom text pos = .ok (Template.placed pos (Template.ofChars cs)) := by
  induction cs using Template.scan_induction generalizing pos with
  | nil =>
    rw [referencesFrom, dif_neg (by simp [H.length_eq])]
    rfl
  | literal c cs hread ih =>
    rw [Template.ofChars_cons_of_none hread, Template.placed, ← ih H.tail]
    by_cases hc : c = '$'
    · subst hc
      rw [referencesFrom_dollar H, hread, utf8Size_signs.1]
    · -- none of the bytes of another character is that of a dollar
      obtain ⟨before, rfl, htext⟩ := H.ofText_eq
      rw [encode_cons] at htext
      rw [referencesFrom_skip htext, String.length_utf8EncodeChar]
      intro b hb
      rw [ne_eq, ofUInt8_eq_iff hb (by decide)]
      exact hc
  | reference r rest hread ih =>
    have ih := ih H.advance
    obtain ⟨cs, hcs⟩ := List.head?_eq_some_iff.1 (Reference.spelled_of_ofPrefix? hread).head?_eq
    rw [Template.ofChars_append_of_some hread, Template.placed]
    rw [hcs, List.cons_append] at H hread
    rw [referencesFrom_dollar H, hread]
    simp [placedAt, ih, Except.map]

end

/-- The search among the bytes goes through, and it finds the references of the text. -/
theorem references_eq (text : String) : references text = .ok (Template.references text) :=
  referencesFrom_eq (stands_zero text)

/-- A character of two bytes stands in front of the dollar. -/
example : references "é$\x7bA:-x\x7d" = .ok [⟨⟨"A", .withDefault true "x"⟩, 2, 9⟩] := by cbv

end VarSubst.Bytewise
