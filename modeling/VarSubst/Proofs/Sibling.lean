import VarSubst.Proofs.Evaluation
import VarSubst.Proofs.Scan

/-!
# References to keys of the same record

A reference to a key of the record is replaced by what the text of that key expands to inside the
expansion of another one, on a longer path and with less depth left. The pass also expands the key
by itself. Where nothing is cut the two agree (`Record.expand_sibling`), since both give the one
evaluation of the text, of which neither path nor depth is a part.
-/

namespace VarSubst

/-- The characters of a segment once references are replaced. -/
def Segment.replace (replaced : Reference → List Char) : Segment → List Char
  | .literal c => [c]
  | .reference r => replaced r

/-- Filling a template keeps its literal characters and replaces its references. -/
theorem Expansion.text_fill {f : Reference → Expansion} {t : Template} :
    (fill f t).text = t.flatMap (Segment.replace fun r => (f r).text) := by
  induction t with
  | nil => rfl
  | cons segment t ih =>
    rw [List.flatMap_cons, ← ih]
    cases segment <;> rfl

/-- A reference of which nothing was cut is evaluated, lower than the texts nest. -/
theorem Scope.exists_evaluates_referenceWithin {s : Scope} {depth : Nat} {path : List String}
    {r : Reference} (hc : (s.expandReferenceWithin depth path r).Complete) :
    ∃ h < depth, Evaluates s.value? (.reference r) (s.expandReferenceWithin depth path r) h := by
  cases depth with
  | zero => exact absurd hc (Expansion.not_avoids_singleton rfl)
  | succ depth =>
    obtain ⟨h, hle, H⟩ := exists_evaluates_reference (s.exists_evaluates depth) hc
    exact ⟨h, Nat.lt_succ_of_le hle, H⟩

variable {σ : Type} [Store σ]

namespace Config

/-- What a reference in the text in use for `key` is replaced by. -/
def replacement (config : Config) (store : σ) (options : Options) (key : String) (r : Reference) :
    String :=
  String.ofList
    ((config.scope store options).expandReferenceWithin options.maxDepth.toNat [key] r).text

variable {config : Config} {store : σ} {options : Options} {origin key raw : String}
  {e : Expansion} {h : Nat}

/-- The text in use for a key expands to its literal characters and what replaces its references. -/
theorem text_expansion : (config.expansion store options key raw).text =
    (Template.ofText (config.selected store options key raw)).flatMap
      (Segment.replace fun r => (config.replacement store options key r).toList) := by
  rw [expansion, Scope.expand, Scope.expandWithin_eq_fill, Expansion.text_fill]
  simp only [replacement, String.toList_ofList]
  rfl

/-- A configured key comes by itself to what it is evaluated to as the key of a reference. -/
theorem expansion_of_evaluates_key (hget : config.get? key = some raw)
    (H : Evaluates (config.scope store options).value? (.key key) e h)
    (hle : h ≤ options.maxDepth.toNat) :
    (config.expansion store options key raw).Complete ∧
      (config.expansion store options key raw).text = e.text := by
  rcases value?_or_selected_eq_empty store options hget with hv | ⟨hv, he⟩
  · cases H with
    | absent hv' =>
      rw [hv] at hv'
      cases hv'
    | present hv' H =>
      rw [hv] at hv'
      cases hv'
      rw [expansion_eq_of_evaluatesTo hget H hle]
      exact ⟨H.complete, rfl⟩
  · cases H with
    | absent =>
      have hexpansion : config.expansion store options key raw = { text := [] } := by
        rw [expansion, he, Scope.expand_empty]
      rw [hexpansion]
      exact ⟨fun event hevent => absurd hevent List.not_mem_nil, rfl⟩
    | present hv' =>
      rw [hv] at hv'
      cases hv'

/-- A reference of which nothing was cut is replaced by the value of its key, if that is a
configured one, and by its default where this value is empty. -/
theorem replacement_of_complete {r : Reference} (hget : config.get? r.key = some raw)
    (hc : ((config.scope store options).expandReferenceWithin options.maxDepth.toNat [origin]
      r).Complete) :
    (config.expansion store options r.key raw).Complete ∧
    ((config.expansion store options r.key raw).text ≠ [] →
      config.replacement store options origin r =
        String.ofList (config.expansion store options r.key raw).text) ∧
    ((config.expansion store options r.key raw).text = [] →
      config.replacement store options origin r =
        (r.default?.map (config.interpolate store options)).getD "") := by
  obtain ⟨h, hlt, H⟩ := Scope.exists_evaluates_referenceWithin hc
  unfold replacement
  generalize (config.scope store options).expandReferenceWithin options.maxDepth.toNat [origin] r
    = e at H
  -- the evaluation has the default in it exactly if the key came to nothing
  cases H with
  | value Hk hne =>
    obtain ⟨hkey, htext⟩ := expansion_of_evaluates_key hget Hk (Nat.le_of_lt hlt)
    rw [htext]
    refine ⟨hkey, fun _ => rfl, ?_⟩
    intro he
    rw [he, hne.resolve_left (absurd he)]
    rfl
  | @default _ body e e' h h' Hk he hbody Hd =>
    obtain ⟨hlt, hlt'⟩ := Nat.max_lt.1 hlt
    obtain ⟨hkey, htext⟩ := expansion_of_evaluates_key hget Hk (Nat.le_of_lt hlt)
    have hdefault : config.interpolate store options body = String.ofList e'.text := by
      rw [interpolate, expand_nil_eq_of_evaluatesTo Hd (Nat.le_of_lt hlt')]
    rw [htext]
    refine ⟨hkey, absurd he, ?_⟩
    intro _
    rw [hbody, Option.map_some, Option.getD_some, hdefault, Expansion.text_append, he,
      List.nil_append]

end Config

namespace Record

/-- **A key that is followed comes to what it comes to by itself.** Where nothing is cut for a key,
its value is the text in use for it with every reference replaced. Nothing is cut for the keys of
the record that these references name, escaped ones aside, and each such reference is replaced by
the value that the pass gives its key, or where this is empty by its default, as if that belonged to
no key. -/
theorem expand_sibling (record : Record) (store : σ) (options : Options) {origin raw : String}
    (hget : record.get? origin = some raw) (hraw : ¬['\\', '$'] <:+: raw.toList)
    (huncut : ∀ t ∈ (record.expand store options).report.truncated, t.origin ≠ origin) :
    (record.expand store options).record.get? origin = some (String.ofList
      ((Template.ofText (record.parsed.selected store options origin raw)).flatMap
        (Segment.replace fun r => (record.parsed.replacement store options origin r).toList))) ∧
    ∀ p ∈ Template.references (record.parsed.selected store options origin raw),
      ∀ raw', record.get? p.reference.key = some raw' → ¬['\\', '$'] <:+: raw'.toList →
        (∀ t ∈ (record.expand store options).report.truncated, t.origin ≠ p.reference.key) ∧
        ∃ value, (record.expand store options).record.get? p.reference.key = some value ∧
          (value ≠ "" →
            record.parsed.replacement store options origin p.reference = value) ∧
          (value = "" → record.parsed.replacement store options origin p.reference =
            (p.reference.default?.map (record.parsed.interpolate store options)).getD "") := by
  constructor
  · rw [get?_expand_of_not_escaped hget hraw, Config.text_expansion]
  · intro p hp raw' hget' hraw'
    have hc := (untruncated_iff_complete hget hraw).1 huncut
    rw [Config.expansion, Scope.expand, Scope.expandWithin_eq_fill] at hc
    have hr := Expansion.avoids_fill.1 hc _ (Template.exists_mem_placed_iff.1 ⟨p, hp, rfl⟩)
    obtain ⟨hkey, hvalue, hdefault⟩ := Config.replacement_of_complete hget' hr
    refine ⟨(untruncated_iff_complete hget' hraw').2 hkey, _,
      get?_expand_of_not_escaped hget' hraw', ?_, ?_⟩
    · intro hne
      apply hvalue
      intro he
      exact hne (by rw [he])
    · intro he
      exact hdefault (String.ofList_eq_empty_iff.1 he)

/-- A key that leads to two others, one of which leads nowhere and leaves its place to a default. -/
def siblingTexts : Record := .ofConfig (.ofList [("A", "${B:-$C}/$C"), ("B", "$E"), ("C", "c")])

theorem siblingTexts_expand :
    (∀ t ∈ (siblingTexts.expand (.empty : Table String String) {}).report.truncated,
      t.origin ≠ "A") ∧
    (siblingTexts.expand (.empty : Table String String) {}).record.get? "B" = some "" ∧
    siblingTexts.parsed.replacement (.empty : Table String String) {} "A"
        ⟨"B", .withDefault true "$C"⟩ =
      siblingTexts.parsed.interpolate (.empty : Table String String) {} "$C" ∧
    (siblingTexts.expand (.empty : Table String String) {}).record.get? "C" = some "c" ∧
    siblingTexts.parsed.replacement (.empty : Table String String) {} "A" ⟨"C", .bare⟩ = "c" := by
  have huncut : ∀ t ∈ (siblingTexts.expand (.empty : Table String String) {}).report.truncated,
      t.origin ≠ "A" := by decide +kernel
  have hreferences : Template.references (siblingTexts.parsed.selected
      (.empty : Table String String) {} "A" "${B:-$C}/$C") =
        [⟨⟨"B", .withDefault true "$C"⟩, 0, 8⟩, ⟨⟨"C", .bare⟩, 9, 11⟩] := by decide
  have hB : (siblingTexts.expand (.empty : Table String String) {}).record.get? "B" = some "" := by
    decide +kernel
  have hC : (siblingTexts.expand (.empty : Table String String) {}).record.get? "C" = some "c" := by
    decide +kernel
  have hsibling := (expand_sibling siblingTexts (.empty : Table String String) {}
    (by decide : siblingTexts.get? "A" = some "${B:-$C}/$C")
    (Escape.ofText?_eq_none_iff.1 (by decide)) huncut).2
  rw [hreferences] at hsibling
  obtain ⟨-, value, hvalue, -, hdefault⟩ := hsibling _ (.head _) "$E" (by decide)
    (Escape.ofText?_eq_none_iff.1 (by decide))
  obtain ⟨-, value', hvalue', hreplaced, -⟩ := hsibling _ (.tail _ (.head _)) "c" (by decide)
    (Escape.ofText?_eq_none_iff.1 (by decide))
  obtain rfl := Option.some.inj (hvalue.symm.trans hB)
  obtain rfl := Option.some.inj (hvalue'.symm.trans hC)
  exact ⟨huncut, hB, hdefault rfl, hC, hreplaced (by decide)⟩

end Record

end VarSubst
