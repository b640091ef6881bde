import VarSubst.Pass
import VarSubst.Proofs.Scan

/-!
# Other forms of references

A key can be written bare or in braces, and a default behind either mark. To write a reference of a
text in its other form changes what a braced form around it, or one left open before it, has to be
read over, but never whether that is a reference (`Template.Alike.isSome_ofPrefix?`): the written
forms have balanced braces and only characters of defaults (`Reference.Spelled.closes`), so a default
that goes on over one of them goes on over the other. Hence the same references are found in the new
text, in their new forms, and it expands to the same (`Config.interpolate_respell`).
-/

namespace VarSubst

/-! ## Braces -/

/-- A stretch with balanced braces in front is of no account. -/
theorem closes_append_iff {depth : Nat} {inner cs : List Char} (h : Closes 0 inner) :
    Closes depth (inner ++ cs) ↔ Closes depth cs := by
  have htotal := h.total
  constructor
  · intro H
    refine ⟨fun c hc => H.chars c (List.mem_append_right _ hc), ?_, ?_⟩
    · intro p hp
      have := H.along (inner ++ p) ((List.prefix_append_right_inj inner).2 hp)
      rw [List.count_append, List.count_append] at this
      omega
    · have := H.total
      rw [List.count_append, List.count_append] at this
      omega
  · intro H
    refine ⟨List.forall_mem_append.2 ⟨h.chars, H.chars⟩, ?_, ?_⟩
    · rintro p ⟨behind, hp⟩
      rcases List.append_eq_append_iff.1 hp with ⟨q, rfl, -⟩ | ⟨q, rfl, hq⟩
      · have := h.along p (List.prefix_append p q)
        omega
      · have := H.along q ⟨behind, hq.symm⟩
        rw [List.count_append, List.count_append]
        omega
    · have := H.total
      rw [List.count_append, List.count_append]
      omega

theorem closes_of_isDefaultChar {cs : List Char} (h : ∀ c ∈ cs, isDefaultChar c) :
    Closes 0 cs := by
  induction cs with
  | nil => exact closes_nil.2 rfl
  | cons c cs ih => exact (closes_char (h c (.head _))).2 (ih fun d hd => h d (.tail _ hd))

/-- The first character of a default leads from some number of open braces to some other one,
whatever follows it. -/
theorem Closes.exists_inside {depth : Nat} {c : Char} {cs : List Char}
    (h : Closes depth (c :: cs)) :
    ∃ inside, Closes inside cs ∧ ∀ ds, Closes inside ds → Closes depth (c :: ds) := by
  rcases h.chars c List.mem_cons_self with hc | rfl | rfl
  · exact ⟨depth, (closes_char hc).1 h, fun _ => (closes_char hc).2⟩
  · exact ⟨depth + 1, closes_open.1 h, fun _ => closes_open.2⟩
  · cases depth with
    | zero => exact absurd h not_closes_close
    | succ depth => exact ⟨depth, closes_close.1 h, fun _ => closes_close.2⟩

/-- A default that is read on inside `depth` open braces comes to an end. -/
def HasEnd (depth : Nat) (cs : List Char) : Prop :=
  ∃ inner rest, cs = inner ++ '}' :: rest ∧ Closes depth inner

namespace HasEnd

variable {depth : Nat} {c : Char} {cs cs' inner : List Char}

theorem cons_mono (h : HasEnd depth (c :: cs))
    (hcs : ∀ inside, HasEnd inside cs → HasEnd inside cs') : HasEnd depth (c :: cs') := by
  obtain ⟨inner, rest, hinner, hcloses⟩ := h
  cases inner with
  | nil =>
    cases hinner
    exact ⟨[], cs', rfl, hcloses⟩
  | cons d inner =>
    cases hinner
    obtain ⟨inside, hinside, hcons⟩ := hcloses.exists_inside
    obtain ⟨inner', rest', rfl, hcloses'⟩ := hcs inside ⟨inner, rest, rfl, hinside⟩
    exact ⟨c :: inner', rest', rfl, hcons inner' hcloses'⟩

/-- A stretch with balanced braces is read over. -/
theorem append_iff (h : Closes 0 inner) : HasEnd depth (inner ++ cs) ↔ HasEnd depth cs := by
  constructor
  · rintro ⟨read, rest, heq, hread⟩
    rcases List.append_eq_append_iff.1 heq with ⟨more, rfl, rfl⟩ | ⟨behind, rfl, hbehind⟩
    · exact ⟨more, rest, rfl, (closes_append_iff h).1 hread⟩
    · cases behind with
      | nil =>
        rw [List.append_nil] at h
        rw [List.nil_append] at hbehind
        refine ⟨[], rest, hbehind.symm, ?_⟩
        have := h.total
        have := hread.total
        exact closes_nil.2 (by omega)
      | cons d behind =>
        -- the brace at the end would close one that was not opened in the stretch
        cases hbehind
        have hprefix := h.along (read ++ ['}']) ⟨behind, by simp⟩
        have := hread.total
        rw [List.count_append, List.count_append] at hprefix
        simp at hprefix
        omega
  · rintro ⟨more, rest, rfl, hmore⟩
    exact ⟨inner ++ more, rest, (List.append_assoc ..).symm, (closes_append_iff h).2 hmore⟩

end HasEnd

/-- The text of a default is told by its end, and by not ending at once. -/
theorem exists_isDefault_iff {cs : List Char} :
    (∃ body rest, IsDefault body ∧ cs = body.toList ++ '}' :: rest) ↔
      HasEnd 0 cs ∧ cs.head? ≠ some '}' := by
  constructor
  · rintro ⟨body, rest, ⟨hne, hcloses⟩, rfl⟩
    refine ⟨⟨body.toList, rest, rfl, hcloses⟩, ?_⟩
    cases hbody : body.toList with
    | nil => exact absurd (String.toList_eq_nil_iff.1 hbody) hne
    | cons c inner =>
      rintro ⟨⟩
      rw [hbody] at hcloses
      exact not_closes_close hcloses
  · rintro ⟨⟨inner, rest, rfl, hcloses⟩, hhead⟩
    refine ⟨String.ofList inner, rest, ⟨?_, ?_⟩, by rw [String.toList_ofList]⟩
    · intro hempty
      rw [String.ofList_eq_empty_iff.1 hempty] at hhead
      exact hhead rfl
    · rwa [String.toList_ofList]

namespace Reference.Spelled

variable {r : Reference} {written rest : List Char}

/-- The written form of a reference could stand in a default. -/
theorem closes (h : r.Spelled written rest) : Closes 0 written := by
  have hkey {key : String} (h : VarSubst.isKey key) : Closes 0 key.toList :=
    closes_of_isDefaultChar fun c hc => isDefaultChar_of_isKeyChar ((isKey_iff.1 h).2 c hc)
  have hbody {body : String} (h : IsDefault body) : Closes 1 (body.toList ++ ['}']) :=
    (closes_append_iff h.closes).2 (closes_close.2 (closes_nil.2 rfl))
  cases h with
  | bare h => exact (closes_char rfl).2 (hkey h)
  | @braced key form ending _ h hends =>
    apply (closes_char rfl).2
    apply closes_open.2
    refine (closes_append_iff (hkey h)).2 ?_
    cases hends with
    | braced => exact closes_close.2 (closes_nil.2 rfl)
    | colon h => exact (closes_char rfl).2 ((closes_char rfl).2 (hbody h))
    | dash h => exact (closes_char rfl).2 (hbody h)

theorem isDefault (h : r.Spelled written rest) {body : String} (hd : r.default? = some body) :
    IsDefault body := by
  cases h with
  | bare => cases hd
  | braced _ hends =>
    cases hends with
    | braced => cases hd
    | colon h | dash h =>
      cases hd
      exact h

/-- A reference is spelled in any form that has the same default and suits what stands behind it. -/
theorem inForm (h : r.Spelled written rest) {form : Form} {behind : List Char}
    (hdefault : default? { r with form } = r.default?) (hbare : form = .bare → EndsKey behind) :
    Spelled { r with form } (render { r with form }) behind := by
  cases form with
  | bare => exact .bare h.isKey (hbare rfl)
  | braced => exact .braced h.isKey .braced
  | withDefault colon body =>
    have hbody : IsDefault body := h.isDefault hdefault.symm
    cases colon with
    | true => exact .braced h.isKey (.colon hbody)
    | false => exact .braced h.isKey (.dash hbody)

end Reference.Spelled

/-! ## Templates that differ in forms -/

theorem dollar_notMem_of_isKey {key : String} (h : isKey key) : '$' ∉ key.toList := by
  intro hmem
  exact absurd ((isKey_iff.1 h).2 '$' hmem) (by decide)

/-- The templates have the same literal characters, and references in the same places to the same
keys with the same defaults, which are all read where they stand. -/
inductive Template.Alike : Template → Template → Prop
  | nil : Alike [] []
  | literal {c t t'} : Alike t t' → Alike (.literal c :: t) (.literal c :: t')
  | reference {r r' t t'} : r.Spelled r.render (render t) → r'.Spelled r'.render (render t') →
    r'.key = r.key → r'.default? = r.default? → Alike t t' →
    Alike (.reference r :: t) (.reference r' :: t')

namespace Template

theorem render_literal (c : Char) (t : Template) : render (.literal c :: t) = c :: render t := rfl

theorem render_reference (r : Reference) (t : Template) :
    render (.reference r :: t) = r.render ++ render t := rfl

namespace Alike

variable {t t' : Template}

theorem symm (H : Alike t t') : Alike t' t := by
  induction H with
  | nil => exact .nil
  | literal _ ih => exact .literal ih
  | reference hr hr' hkey hdefault _ ih => exact .reference hr' hr hkey.symm hdefault.symm ih

theorem head?_eq (H : Alike t t') : t'.render.head? = t.render.head? := by
  cases H with
  | nil | literal => rfl
  | reference hr hr' =>
    rw [render_reference, render_reference, List.head?_append, List.head?_append, hr.head?_eq,
      hr'.head?_eq]
    rfl

theorem hasEnd (H : Alike t t') {depth : Nat} (h : HasEnd depth t.render) :
    HasEnd depth t'.render := by
  induction H generalizing depth with
  | nil => exact h
  | literal _ ih => exact h.cons_mono fun inside => ih
  | reference hr hr' _ _ _ ih =>
    rw [render_reference, HasEnd.append_iff hr.closes] at h
    rw [render_reference, HasEnd.append_iff hr'.closes]
    exact ih h

/-- A text without dollars with which the one begins is literal, so the other begins with it. -/
theorem exists_of_dollar_notMem (H : Alike t t') {cs rest : List Char} (hcs : '$' ∉ cs)
    (h : t.render = cs ++ rest) :
    ∃ u u', Alike u u' ∧ rest = u.render ∧ t'.render = cs ++ u'.render := by
  induction cs generalizing t t' with
  | nil => exact ⟨t, t', H, h.symm, rfl⟩
  | cons c cs ih =>
    obtain ⟨hc, hbehind⟩ := not_or.1 (mt List.mem_cons.2 hcs)
    cases H with
    | nil => cases h
    | literal H =>
      rw [render_literal, List.cons_append, List.cons_eq_cons] at h
      obtain ⟨rfl, h⟩ := h
      obtain ⟨u, u', hu, hrest, hrender⟩ := ih H hbehind h
      exact ⟨u, u', hu, hrest, by rw [render_literal, hrender, List.cons_append]⟩
    | @reference r _ t _ hr =>
      have hhead : (render (.reference r :: t)).head? = some '$' := by
        rw [render_reference, List.head?_append, hr.head?_eq]
        rfl
      rw [h] at hhead
      exact absurd (Option.some.inj hhead).symm hc

/-- A default stands in front of both texts, or of none. -/
theorem exists_isDefault (H : Alike t t')
    (h : ∃ body rest, IsDefault body ∧ t.render = body.toList ++ '}' :: rest) :
    ∃ body rest, IsDefault body ∧ t'.render = body.toList ++ '}' :: rest := by
  rw [exists_isDefault_iff] at h ⊢
  exact ⟨H.hasEnd h.1, H.head?_eq ▸ h.2⟩

/-- Behind a dollar and a brace both texts go on as a reference with a default, or none does. -/
theorem isSome_ofPrefix?_of_default (H : Alike t t') (mark : List Char) (form : String → Form)
    {key body : String} {rest : List Char} (hkey : isKey key) (hmark : '$' ∉ mark)
    (hbody : IsDefault body)
    (hends : ∀ body, IsDefault body → (form body).Ends (mark ++ (body.toList ++ ['}'])))
    (h : t.render = '{' :: (key.toList ++ (mark ++ (body.toList ++ ['}']))) ++ rest) :
    (Reference.ofPrefix? ('$' :: t'.render)).isSome := by
  have hliteral : '$' ∉ '{' :: (key.toList ++ mark) := by
    simp [dollar_notMem_of_isKey hkey, hmark]
  have ht : t.render = '{' :: (key.toList ++ mark) ++ (body.toList ++ '}' :: rest) := by simp [h]
  obtain ⟨u, u', hu, hrest, ht'⟩ := H.exists_of_dollar_notMem hliteral ht
  obtain ⟨body', rest', hbody', hrest'⟩ := hu.exists_isDefault ⟨body, rest, hbody, hrest.symm⟩
  have hspelled : Reference.Spelled ⟨key, form body'⟩
      ('$' :: '{' :: (key.toList ++ (mark ++ (body'.toList ++ ['}'])))) rest' :=
    .braced hkey (hends body' hbody')
  have heq : '$' :: t'.render =
      '$' :: '{' :: (key.toList ++ (mark ++ (body'.toList ++ ['}']))) ++ rest' := by
    simp [ht', hrest']
  rw [heq, hspelled.ofPrefix?]
  rfl

/-- Behind the same character there is a reference in both texts, or in none. -/
theorem isSome_ofPrefix? (H : Alike t t') {c : Char}
    (h : (Reference.ofPrefix? (c :: t.render)).isSome) :
    (Reference.ofPrefix? (c :: t'.render)).isSome := by
  obtain ⟨r, hr⟩ := Option.isSome_iff_exists.1 h
  obtain ⟨written, rest, hcs, hspelled⟩ := Reference.exists_spelled_of_ofPrefix? hr
  cases hspelled with
  | @bare key _ hkey hrest =>
    obtain ⟨rfl, ht⟩ := List.cons_eq_cons.1 hcs
    obtain ⟨u, u', hu, rfl, ht'⟩ :=
      H.exists_of_dollar_notMem (dollar_notMem_of_isKey hkey) ht
    have hspelled : Reference.Spelled ⟨key, .bare⟩ ('$' :: key.toList) u'.render :=
      .bare hkey fun c hc => hrest c (hu.head?_eq ▸ hc)
    rw [ht', ← List.cons_append, hspelled.ofPrefix?]
    rfl
  | @braced key form ending _ hkey hends =>
    obtain ⟨rfl, ht⟩ := List.cons_eq_cons.1 hcs
    cases hends with
    | braced =>
      have hliteral : '$' ∉ '{' :: (key.toList ++ ['}']) := by simp [dollar_notMem_of_isKey hkey]
      obtain ⟨u, u', -, -, ht'⟩ := H.exists_of_dollar_notMem hliteral ht
      have hspelled : Reference.Spelled ⟨key, .braced⟩ ('$' :: '{' :: (key.toList ++ ['}']))
          u'.render := .braced hkey .braced
      rw [ht', ← List.cons_append, hspelled.ofPrefix?]
      rfl
    | colon hbody =>
      exact H.isSome_ofPrefix?_of_default [':', '-'] (.withDefault true) hkey (by decide) hbody
        (fun _ => .colon) ht
    | dash hbody =>
      exact H.isSome_ofPrefix?_of_default ['-'] (.withDefault false) hkey (by decide) hbody
        (fun _ => .dash) ht

/-- A template like the one of a text is that of its own text. -/
theorem ofChars_render {cs : List Char} (H : Alike (ofChars cs) t') : ofChars t'.render = t' := by
  induction cs using scan_induction generalizing t' with
  | nil =>
    cases H
    rfl
  | literal c cs h ih =>
    rw [ofChars_cons_of_none h] at H
    cases H with
    | @literal _ _ t' H =>
      have hnone : Reference.ofPrefix? (c :: t'.render) = none := by
        apply Option.not_isSome_iff_eq_none.1
        intro hsome
        have := H.symm.isSome_ofPrefix? hsome
        rw [render_ofChars, h] at this
        cases this
      rw [render_literal, ofChars_cons_of_none hnone, ih H]
  | reference r rest h ih =>
    rw [ofChars_append_of_some h] at H
    cases H with
    | reference _ hr' _ _ H =>
      rw [render_reference, ofChars_append_of_some hr'.ofPrefix?, ih H]

end Alike

/-! ## Forms that are chosen -/

/-- The template, which starts at byte `start`, with references in the forms chosen for them. -/
def inForms (choose : Placed → Form) : (start : Nat) → Template → Template
  | _, [] => []
  | start, .literal c :: t => .literal c :: inForms choose (start + c.utf8Size) t
  | start, .reference r :: t =>
    let stop := start + Text.byteSize r.render
    .reference { r with form := choose ⟨r, start, stop⟩ } :: inForms choose stop t

/-- The text with its references written in the forms chosen for them. -/
def respell (choose : Placed → Form) (text : String) : String :=
  String.ofList (inForms choose 0 (ofText text)).render

end Template

namespace Placed

/-- A form in which a reference of the text can be written: it has the same default, and is bare only
where no key character follows the reference. -/
structure CanTake (text : String) (p : Placed) (form : Form) : Prop where
  default? : Reference.default? { p.reference with form } = p.reference.default?
  endsKey : form = .bare → ∀ before rest, text.toList = before ++ rest →
    Text.byteSize before = p.stop → EndsKey rest

/-- The references in the forms chosen for them, each as far behind the one before as it was;
`stop` is where that one ended, and `stop'` where it ends now. -/
def inForms (choose : Placed → Form) : (stop stop' : Nat) → List Placed → List Placed
  | _, _, [] => []
  | stop, stop', p :: found =>
    let reference := { p.reference with form := choose p }
    let start := stop' + (p.start - stop)
    let last := start + Text.byteSize reference.render
    { reference, start, stop := last } :: inForms choose p.stop last found

theorem inForms_add {choose : Placed → Form} {stop stop' n : Nat} {found : List Placed}
    (h : ∀ p ∈ found, stop + n ≤ p.start) :
    inForms choose (stop + n) (stop' + n) found = inForms choose stop stop' found := by
  cases found with
  | nil => rfl
  | cons p found =>
    have hstart : stop' + n + (p.start - (stop + n)) = stop' + (p.start - stop) := by
      have := h p (.head _)
      omega
    rw [inForms, inForms, hstart]

end Placed

namespace Template

variable {choose : Placed → Form}

/-- The references that took the chosen forms are in their places. -/
theorem placed_inForms (start start' : Nat) (t : Template) :
    placed start' (inForms choose start t) = Placed.inForms choose start start' (placed start t) := by
  induction t generalizing start start' with
  | nil => rfl
  | cons segment t ih =>
    cases segment with
    | literal c =>
      rw [inForms, placed, placed, ih]
      exact Placed.inForms_add fun p => le_start_of_mem_placed
    | reference r =>
      rw [inForms, placed, placed, ih, Placed.inForms, Nat.sub_self, Nat.add_zero]

/-- With forms that they can take, references are read again where they stand. -/
theorem alike_inForms {text : String} (before cs : List Char) (htext : text.toList = before ++ cs)
    (h : ∀ p ∈ placed (Text.byteSize before) (ofChars cs), p.CanTake text (choose p)) :
    Alike (ofChars cs) (inForms choose (Text.byteSize before) (ofChars cs)) := by
  induction cs using scan_induction generalizing before with
  | nil => exact .nil
  | literal c cs hread ih =>
    have hsize : Text.byteSize (before ++ [c]) = Text.byteSize before + c.utf8Size := by simp
    rw [ofChars_cons_of_none hread] at h ⊢
    rw [placed, ← hsize] at h
    rw [inForms, ← hsize]
    exact .literal (ih (before ++ [c]) (by simp [htext]) h)
  | reference r rest hread ih =>
    have hsize : Text.byteSize (before ++ r.render) =
      Text.byteSize before + Text.byteSize r.render := by simp
    rw [ofChars_append_of_some hread] at h ⊢
    rw [placed, ← hsize] at h
    rw [inForms, ← hsize]
    obtain ⟨hcan, h⟩ := List.forall_mem_cons.1 h
    have H := ih (before ++ r.render) (by simp [htext]) h
    have hspelled : r.Spelled r.render (render (ofChars rest)) := by
      rw [render_ofChars]
      exact Reference.spelled_of_ofPrefix? hread
    refine .reference hspelled (hspelled.inForm hcan.default? ?_) rfl hcan.default? H
    intro hbare c hc
    rw [H.head?_eq, render_ofChars] at hc
    exact hcan.endsKey hbare (before ++ r.render) rest (by simp [htext]) rfl c hc

/-- The text with the chosen forms is taken apart into what it was put together from. -/
theorem ofText_respell {text : String}
    (h : ∀ p ∈ references text, p.CanTake text (choose p)) :
    Alike (ofText text) (inForms choose 0 (ofText text)) ∧
      ofText (respell choose text) = inForms choose 0 (ofText text) := by
  have H : Alike (ofText text) (inForms choose 0 (ofText text)) :=
    alike_inForms [] text.toList rfl h
  refine ⟨H, ?_⟩
  rw [respell, ofText, String.toList_ofList]
  exact H.ofChars_render

end Template

/-! ## Expansion -/

/-- What becomes of a reference hangs on its key and its default. -/
theorem Scope.expandReferenceWithin_congr {s : Scope} (depth : Nat) (path : List String)
    {r r' : Reference} (hkey : r'.key = r.key) (hdefault : r'.default? = r.default?) :
    s.expandReferenceWithin depth path r' = s.expandReferenceWithin depth path r := by
  cases depth with
  | zero => simp only [expandReferenceWithin, hkey]
  | succ depth => simp only [expandReferenceWithin, expandReference, hkey, hdefault]

theorem Template.Alike.map_placed {t t' : Template} (H : Alike t t') (start start' : Nat) :
    (placed start' t').map (fun p => (p.reference.key, p.reference.default?)) =
      (placed start t).map (fun p => (p.reference.key, p.reference.default?)) := by
  induction H generalizing start start' with
  | nil => rfl
  | literal _ ih => exact ih _ _
  | reference _ _ hkey hdefault _ ih =>
    rw [placed, placed, List.map_cons, List.map_cons, hkey, hdefault, ih]

theorem Template.Alike.fill_eq {t t' : Template} (H : Alike t t') {f : Reference → Expansion}
    (h : ∀ r r', r'.key = r.key → r'.default? = r.default? → f r' = f r) :
    Expansion.fill f t' = Expansion.fill f t := by
  induction H with
  | nil => rfl
  | literal _ ih => rw [Expansion.fill_literal, Expansion.fill_literal, ih]
  | reference _ _ hkey hdefault _ ih =>
    rw [Expansion.fill_reference, Expansion.fill_reference, h _ _ hkey hdefault, ih]

variable {σ : Type} [Store σ]

/-- **The form in which a reference is written does not matter.** Write the references of a text in
any forms that they can take, a key bare or in braces and a default behind either mark. The text that
results has the same references in these forms, each as far behind the one before it as it was, with
the same keys and defaults, and it expands to the same. -/
theorem Config.interpolate_respell (config : Config) (store : σ) (options : Options) (text : String)
    (choose : Placed → Form)
    (h : ∀ p ∈ Template.references text, p.CanTake text (choose p)) :
    Template.references (Template.respell choose text) =
      Placed.inForms choose 0 0 (Template.references text) ∧
    (Template.references (Template.respell choose text)).map
        (fun p => (p.reference.key, p.reference.default?)) =
      (Template.references text).map (fun p => (p.reference.key, p.reference.default?)) ∧
    config.interpolate store options (Template.respell choose text) =
      config.interpolate store options text := by
  obtain ⟨H, htemplate⟩ := Template.ofText_respell h
  rw [Template.references, htemplate, Template.references]
  refine ⟨Template.placed_inForms 0 0 _, H.map_placed 0 0, ?_⟩
  have hfill := H.fill_eq fun _ _ =>
    (config.scope store options).expandReferenceWithin_congr options.maxDepth.toNat []
  rw [Template.ofText] at htemplate
  rw [interpolate, interpolate, Scope.expand, Scope.expand, Scope.expandWithin_eq_fill,
    Scope.expandWithin_eq_fill, htemplate]
  exact congrArg (fun e => String.ofList e.text) hfill

/-- A form that is left open, with two references in what would be its default. -/
def openForm : String := "$\x7bX:-$\x7bA\x7d:$\x7bB-$A\x7d"

/-- The first of its references bare, and the mark of the second with a colon. -/
def otherForms (p : Placed) : Form := if p.start = 5 then .bare else .withDefault true "$A"

theorem openForm_canTake : ∀ p ∈ Template.references openForm, p.CanTake openForm (otherForms p) := by
  have hfound : Template.references openForm =
    [⟨⟨"A", .braced⟩, 5, 9⟩, ⟨⟨"B", .withDefault false "$A"⟩, 10, 17⟩] := by decide
  rw [hfound]
  intro p hp
  rcases List.mem_cons.1 hp with rfl | hp
  · refine ⟨by decide, ?_⟩
    intro _ before rest htext hsize
    have hsplit : openForm.toList = "$\x7bX:-$\x7bA\x7d".toList ++ ":$\x7bB-$A\x7d".toList := by decide
    obtain ⟨-, rfl⟩ := Text.append_inj_of_byteSize_eq (htext.symm.trans hsplit) hsize
    simp [EndsKey, isKeyChar]
  · obtain rfl := List.mem_singleton.1 hp
    exact ⟨by decide, fun h => nomatch h⟩

/-- The braces around a key go, the form in front is still left open, and the text is the same. -/
theorem openForm_respell :
    (∀ p ∈ Template.references openForm, p.CanTake openForm (otherForms p)) ∧
    Template.respell otherForms openForm = "$\x7bX:-$A:$\x7bB:-$A\x7d" ∧
    Template.references (Template.respell otherForms openForm) =
      [⟨⟨"A", .bare⟩, 5, 7⟩, ⟨⟨"B", .withDefault true "$A"⟩, 8, 16⟩] ∧
    Config.interpolate (.ofList [("A", "a")]) (.empty : Table String String) {}
      (Template.respell otherForms openForm) = "$\x7bX:-a:a" := by
  obtain ⟨hreferences, -, htext⟩ := Config.interpolate_respell (.ofList [("A", "a")])
    (.empty : Table String String) {} openForm otherForms openForm_canTake
  exact ⟨openForm_canTake, by decide, hreferences.trans (by decide), htext.trans (by decide)⟩

end VarSubst
