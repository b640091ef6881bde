import VarSubst.Proofs.Bytewise.Scan
import VarSubst.Proofs.Outcome

/-!
# Expanding texts by their bytes

A text is expanded by copying what stands between its references, slice by slice, and by going one
level deeper for each text that a reference stands for. Here each slice and each level is checked.
No check fails: the slices follow one another inside the text, and no text is expanded deeper than
the bound (`Bytewise.expand_eq`), so that the level can always be counted.
-/

namespace VarSubst

namespace Bytewise

/-- The next level; there is none behind the greatest number. -/
def deeper (depth : UInt64) : Except Fault UInt64 :=
  if depth.toNat + 1 < UInt64.size then .ok (depth + 1) else .error .deepest

theorem toNat_of_deeper {depth next : UInt64} (h : deeper depth = .ok next) :
    next.toNat = depth.toNat + 1 := by
  unfold deeper at h
  split at h
  · next hlt =>
    cases h
    rw [UInt64.toNat_add, UInt64.toNat_one]
    exact Nat.mod_eq_of_lt hlt
  · cases h

/-- The levels that are left get fewer. -/
theorem left_deeper_lt {depth next bound : UInt64} (hdepth : ¬bound < depth)
    (h : deeper depth = .ok next) : bound.toNat + 1 - next.toNat < bound.toNat + 1 - depth.toNat := by
  have hle := UInt64.le_iff_toNat_le.1 (UInt64.not_lt.1 hdepth)
  have hnext := toNat_of_deeper h
  omega

/-- The text from byte `last` on, in which each reference is replaced. -/
def splice (text : String) (replace : Reference → Except Fault Expansion) (last : Nat) :
    List Placed → Except Fault Expansion
  | [] => do
    let rest ← slice text last (Bytes.ofText text).length
    return { text := rest.toList }
  | p :: found => do
    let before ← slice text last p.start
    let value ← replace p.reference
    let behind ← splice text replace p.stop found
    return { text := before.toList } ++ (value ++ behind)

/-- The text in which each reference is replaced. -/
def interpolate (text : String) (replace : Reference → Except Fault Expansion) :
    Except Fault Expansion := do
  match ← references text with
  | [] => return { text := text.toList }
  | found => splice text replace 0 found

/-- The expansion of a key, where `inner` expands the text that it stands for. -/
def resolveKey (s : Scope) (inner : List String → String → Except Fault Expansion)
    (path : List String) (key : String) : Except Fault Expansion :=
  if key ∈ path then return { text := [], events := [.cut key (.cycle path)] }
  else
    match s.value? key with
    | none => return { text := [], events := [.unresolved key] }
    | some value => inner (path ++ [key]) value

/-- The expansion of a reference in a text at level `depth`. -/
def resolveReference (s : Scope) (inner : List String → String → Except Fault Expansion)
    (depth : UInt64) (path : List String) (r : Reference) : Except Fault Expansion := do
  if s.maxDepth ≤ depth then return { text := [], events := [.cut r.key (.depth s.maxDepth)] }
  let value ← resolveKey s inner path r.key
  match value.text, r.default? with
  | [], some body =>
    let default ← inner path body
    return { default with events := value.events ++ default.events }
  | _, _ => return value

/-- The expansion of a text at level `depth`, inside the expansions of the keys in `path`. -/
def expand (s : Scope) (depth : UInt64) (path : List String) (text : String) :
    Except Fault Expansion :=
  if hdepth : s.maxDepth < depth then throw (.tooDeep depth)
  else
    let inner (path : List String) (text : String) : Except Fault Expansion :=
      match hdeeper : deeper depth with
      | .ok next =>
        have := left_deeper_lt hdepth hdeeper
        expand s next path text
      | .error fault => throw fault
    interpolate text (resolveReference s inner depth path)
termination_by s.maxDepth.toNat + 1 - depth.toNat

/-! ## What comes of it -/

section

variable {text : String} {replace : Reference → Except Fault Expansion} {f : Reference → Expansion}

/-- What stands between the references is copied; `passed` was passed over before `cs`. -/
theorem splice_eq (hreplace : ∀ r, replace r = .ok (f r)) {last : Nat} {passed cs : List Char}
    (H : Stands text last (passed ++ cs)) :
    splice text replace last
        (Template.placed (last + Text.byteSize passed) (Template.ofChars cs)) =
      .ok ({ text := passed } ++ .fill f (Template.ofChars cs)) := by
  have happend (e e' : Expansion) : e ++ e' = ⟨e.text ++ e'.text, e.events ++ e'.events⟩ := rfl
  induction cs using Template.scan_induction generalizing last passed with
  | nil =>
    have hslice := H.slice
    rw [List.append_nil] at H
    rw [Template.ofChars_nil, Template.placed, splice, H.length_eq, hslice, ok_bind]
    simp [happend]
  | literal c cs hread ih =>
    have ih := @ih last (passed ++ [c]) (by simpa using H)
    rw [Text.byteSize_append, ← Nat.add_assoc] at ih
    rw [Template.ofChars_cons_of_none hread, Template.placed]
    refine ih.trans (congrArg Except.ok ?_)
    simp [happend]
  | reference r rest hread ih =>
    have ih := @ih _ [] H.advance.advance
    rw [Text.byteSize_nil, Nat.add_zero] at ih
    rw [Template.ofChars_append_of_some hread, Template.placed, splice, H.slice, ok_bind,
      hreplace r, ok_bind, ih, ok_bind]
    simp [happend]

/-- A text without references is copied as a whole. -/
theorem interpolate_eq (hreplace : ∀ r, replace r = .ok (f r)) :
    interpolate text replace = .ok (.fill f (.ofText text)) := by
  have H : Stands text 0 ([] ++ text.toList) := stands_zero text
  have hsplice : splice text replace 0 (Template.references text) = .ok (.fill f (.ofText text)) :=
    splice_eq hreplace H
  rw [interpolate, references_eq, ok_bind]
  split
  · next hnone =>
    rw [← hsplice, hnone, splice, Stands.slice_all]
    rfl
  · exact hsplice

end

section

variable {s : Scope} {inner : List String → String → Except Fault Expansion}
  {inner' : List String → List Char → Expansion} {depth : UInt64}

theorem resolveKey_eq (hinner : ∀ path text, inner path text = .ok (inner' path text.toList))
    (path : List String) (key : String) :
    resolveKey s inner path key = .ok (s.expandKey inner' path key) := by
  rw [resolveKey]
  rcases s.expandKey_cases inner' path key with ⟨hmem, hk⟩ | ⟨hmem, hv, hk⟩ | ⟨value, hmem, hv, hk⟩
  · rw [if_pos hmem, hk, pure_eq_ok]
  · rw [if_neg hmem, hv, hk, pure_eq_ok]
  · rw [if_neg hmem, hv, hk]
    exact hinner _ value

theorem resolveReference_eq_cut (hdepth : s.maxDepth ≤ depth) (path : List String) (r : Reference) :
    resolveReference s inner depth path r = .ok (s.expandReferenceWithin 0 path r) := by
  rw [resolveReference, if_pos hdepth]
  rfl

theorem resolveReference_eq (hdepth : depth < s.maxDepth)
    (hinner : ∀ path text, inner path text = .ok (inner' path text.toList)) (path : List String)
    (r : Reference) :
    resolveReference s inner depth path r = .ok (s.expandReference inner' path r) := by
  rw [resolveReference, if_neg (UInt64.not_le.2 hdepth), resolveKey_eq hinner, ok_bind,
    Scope.expandReference]
  cases (s.expandKey inner' path r.key).text with
  | nil => cases r.default? <;> simp [hinner]
  | cons => simp

end

/-- No text is expanded deeper than the bound, and what it expands to is its expansion. -/
theorem expand_eq {s : Scope} {depth : UInt64} (hdepth : depth ≤ s.maxDepth) (path : List String)
    (text : String) :
    expand s depth path text =
      .ok (s.expandWithin (s.maxDepth.toNat - depth.toNat) path text.toList) := by
  have hle := UInt64.le_iff_toNat_le.1 hdepth
  induction hleft : s.maxDepth.toNat - depth.toNat generalizing depth path text with
  | zero =>
    have hcut : s.maxDepth ≤ depth := UInt64.le_iff_toNat_le.2 (Nat.le_of_sub_eq_zero hleft)
    rw [expand, dif_neg (UInt64.not_lt.2 hdepth)]
    exact interpolate_eq (resolveReference_eq_cut hcut path)
  | succ n ih =>
    have hlt : depth.toNat < s.maxDepth.toNat := by omega
    have hdeeper : deeper depth = .ok (depth + 1) :=
      if_pos (Nat.lt_of_le_of_lt hlt s.maxDepth.toNat_lt)
    rw [expand, dif_neg (UInt64.not_lt.2 hdepth)]
    refine interpolate_eq (resolveReference_eq (UInt64.lt_iff_toNat_lt.2 hlt) ?_ path)
    intro path text
    split
    · next next hnext =>
      have hone := toNat_of_deeper hnext
      exact ih (UInt64.le_iff_toNat_le.2 (by omega)) path text (by omega) (by omega)
    · next hfault =>
      rw [hdeeper] at hfault
      cases hfault

end Bytewise

/-- The places of references are in order, and they begin and end at boundaries of characters. -/
theorem Template.references_boundaries (text : String) :
    (references text).Pairwise (fun p q => p.stop ≤ q.start) ∧
    ∀ p ∈ references text, p.start ≤ p.stop ∧
      String.Pos.Raw.isValid text ⟨p.start⟩ ∧ String.Pos.Raw.isValid text ⟨p.stop⟩ := by
  have hlists : Lists 0 text.toList (references text) := Lists.iff_eq_placed.2 rfl
  refine ⟨hlists.ordered, fun p hp => ?_⟩
  have hmatch := hlists.sound p hp
  have hle := Nat.le_of_lt hmatch.start_lt_stop
  obtain ⟨before, written, rest, htext, -, hstart, hstop⟩ := hmatch
  have H : Bytewise.Stands text p.start (written ++ rest) :=
    ⟨before, htext, by rw [hstart, Nat.zero_add]⟩
  exact ⟨hle, H.isValid, hstop ▸ H.advance.isValid⟩

/-- **Nothing faults.** Byte by byte the search goes through in every text and finds its references;
their places follow one another and cut the text at boundaries of characters. Whatever the texts are
looked up in, and however high the bound on depth, slices and levels go through as well when a text
is expanded, and it comes to its expansion. -/
theorem Config.bytewise_faultless {σ : Type} [Store σ] (config : Config) (store : σ)
    (options : Options) :
    (∀ text, Bytewise.references text = .ok (Template.references text)) ∧
    (∀ text, (Template.references text).Pairwise (fun p q => p.stop ≤ q.start) ∧
      ∀ p ∈ Template.references text, p.start ≤ p.stop ∧
        String.Pos.Raw.isValid text ⟨p.start⟩ ∧ String.Pos.Raw.isValid text ⟨p.stop⟩) ∧
    ∀ path text, Bytewise.expand (config.scope store options) 0 path text =
      .ok ((config.scope store options).expand path text) := by
  refine ⟨Bytewise.references_eq, Template.references_boundaries, fun path text => ?_⟩
  exact Bytewise.expand_eq (UInt64.le_iff_toNat_le.2 (Nat.zero_le _)) path text

end VarSubst
