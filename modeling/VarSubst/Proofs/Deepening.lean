import VarSubst.Proofs.NestingBound

/-!
# Letting texts nest deeper

A greater bound on depth makes no difference where no reference was cut for its depth. Elsewhere it
adds text: if no reference has a default, all that was there before stays, in its order, and the keys
that stood for nothing still do (`Scope.expandWithin_growsTo`). With defaults this fails, as a
reference that comes to something is no longer replaced by its default.
-/

namespace VarSubst

/-- None of the references of a text has a default. -/
def Plain (text : String) : Prop := ∀ p ∈ Template.references text, p.reference.default? = none

instance (text : String) : Decidable (Plain text) :=
  inferInstanceAs (Decidable (∀ p ∈ Template.references text, p.reference.default? = none))

theorem Plain.default?_eq_none {text : String} (h : Plain text) {r : Reference}
    (hr : .reference r ∈ Template.ofText text) : r.default? = none := by
  obtain ⟨p, hp, rfl⟩ := Template.exists_mem_placed_iff.2 hr
  exact h p hp

/-! ## Expansions that grow -/

namespace Expansion

/-- All the text of an expansion is in the other one, in the same order, and so are the keys that
were found to stand for nothing. -/
structure GrowsTo (e e' : Expansion) : Prop where
  text : e.text.Sublist e'.text
  unresolved : ∀ key, .unresolved key ∈ e.events → .unresolved key ∈ e'.events

theorem GrowsTo.refl (e : Expansion) : e.GrowsTo e := ⟨.refl _, fun _ h => h⟩

/-- A cut leaves nothing that could get lost. -/
theorem GrowsTo.cut (key : String) (cause : Cut) (e : Expansion) :
    GrowsTo { text := [], events := [.cut key cause] } e where
  text := List.nil_sublist _
  unresolved _ h := nomatch List.mem_singleton.1 h

theorem GrowsTo.fill {f g : Reference → Expansion} {t : Template}
    (h : ∀ r, .reference r ∈ t → (f r).GrowsTo (g r)) : (fill f t).GrowsTo (fill g t) := by
  constructor
  · induction t with
    | nil => exact .refl _
    | cons segment t ih =>
      have ih := ih fun r hr => h r (.tail _ hr)
      cases segment with
      | literal c => exact ih.cons_cons c
      | reference r => exact (h r (.head _)).text.append ih
  · intro key hkey
    obtain ⟨r, hr, hkey⟩ := mem_events_fill.1 hkey
    exact mem_events_fill.2 ⟨r, hr, (h r hr).unresolved key hkey⟩

end Expansion

namespace Scope

variable {s s' : Scope}

theorem expandKey_growsTo {inner inner' : List String → List Char → Expansion}
    {path : List String} {key : String} (hvalue : s'.value? key = s.value? key)
    (hinner : ∀ value, s.value? key = some value →
      (inner (path ++ [key]) value.toList).GrowsTo (inner' (path ++ [key]) value.toList)) :
    (s.expandKey inner path key).GrowsTo (s'.expandKey inner' path key) := by
  rcases s.expandKey_cases inner path key with ⟨hmem, hk⟩ | ⟨hmem, hv, hk⟩ | ⟨value, hmem, hv, hk⟩
  · rw [hk]
    exact .cut _ _ _
  · rw [hk, expandKey_of_none hmem (hvalue.trans hv)]
    exact .refl _
  · rw [hk, expandKey_of_some hmem (hvalue.trans hv)]
    exact hinner value hv

/-- Expansions of texts without defaults grow with the depth to which texts may nest. -/
theorem expandWithin_growsTo (hvalue : s'.value? = s.value?)
    (hplain : ∀ key value, s.value? key = some value → Plain value) {depth depth' : Nat}
    (hle : depth ≤ depth') {path : List String} {text : String} (htext : Plain text) :
    (s.expandWithin depth path text.toList).GrowsTo (s'.expandWithin depth' path text.toList) := by
  induction depth generalizing depth' path text with
  | zero =>
    rw [expandWithin_eq_fill, expandWithin_eq_fill]
    exact .fill fun r _ => .cut _ _ _
  | succ depth ih =>
    obtain ⟨depth', rfl⟩ : ∃ d, depth' = d + 1 := ⟨depth' - 1, by omega⟩
    refine .fill fun r hr => ?_
    -- without a default a reference is its key on both sides, whether that comes to nothing or not
    have hdefault := htext.default?_eq_none hr
    rw [expandReference_eq_expandKey (.inr hdefault), expandReference_eq_expandKey (.inr hdefault)]
    apply expandKey_growsTo (congrFun hvalue r.key)
    intro value hv
    exact ih (Nat.le_of_succ_le_succ hle) (hplain r.key value hv)

end Scope

/-! ## Passes -/

variable {σ : Type} [Store σ]

namespace Config

variable {config : Config} {store : σ} {options : Options} {key raw : String} {maxDepth : UInt64}

/-- What keys stand for does not hang on the bound. -/
theorem value?_scope_deepen : (config.scope store { options with maxDepth }).value? =
    (config.scope store options).value? := rfl

/-- A key of which no reference was cut for its depth has the same outcome with a greater bound. -/
theorem outcome_deepen (hle : options.maxDepth ≤ maxDepth)
    (h : ¬['\\', '$'] <:+: raw.toList →
      (config.expansion store options key raw).Avoids Event.isDepthCut) :
    config.outcome store { options with maxDepth } key raw =
      config.outcome store options key raw := by
  refine outcome_congr rfl fun hraw => ?_
  exact Scope.expandWithin_eq_of_avoids value?_scope_deepen (UInt64.le_iff_toNat_le.1 hle) (h hraw)

/-- The expansion of a configured key grows with the bound where no text has a default. -/
theorem expansion_growsTo (hle : options.maxDepth ≤ maxDepth)
    (hconfig : ∀ key value, config.get? key = some value → Plain value)
    (hstore : ∀ key value, Store.get? store key = some value → Plain value)
    (hget : config.get? key = some raw) :
    (config.expansion store options key raw).GrowsTo
      (config.expansion store { options with maxDepth } key raw) := by
  have hplain (key value) (hv : (config.scope store options).value? key = some value) :
      Plain value := of_value? hconfig hstore hv
  have hselected : Plain (config.selected store options key raw) :=
    of_selected hconfig hstore (by decide) hget
  exact Scope.expandWithin_growsTo value?_scope_deepen hplain (UInt64.le_iff_toNat_le.1 hle)
    hselected

end Config

namespace Record

/-- **A greater bound on depth only adds.** Where a pass cuts no reference for its depth, a greater
bound gives the same pass. And if no text of the record or the store has a reference with a default,
then every value of the pass is a subsequence of that under a greater bound, and no key ceases to be
unresolved. -/
theorem expand_deepen (record : Record) (store : σ) (options : Options) (maxDepth : UInt64)
    (hle : options.maxDepth ≤ maxDepth) :
    ((∀ t ∈ (record.expand store options).report.truncated, ∀ limit, t.cause ≠ .depth limit) →
      record.expand store { options with maxDepth } = record.expand store options) ∧
    ((∀ key value, record.get? key = some value → Plain value) →
      (∀ key value, Store.get? store key = some value → Plain value) →
      (∀ key value, (record.expand store options).record.get? key = some value →
        ∃ value', (record.expand store { options with maxDepth }).record.get? key = some value' ∧
          value.toList.Sublist value'.toList) ∧
      ∀ key ∈ (record.expand store options).report.unresolved,
        key ∈ (record.expand store { options with maxDepth }).report.unresolved) := by
  constructor
  · intro hcause
    refine expand_congr fun key raw hget => Config.outcome_deepen hle fun hraw event hevent => ?_
    cases event with
    | unresolved key' => rfl
    | cut key' cause =>
      have ht : ⟨key, key', cause⟩ ∈ (record.expand store options).report.truncated :=
        mem_truncated_expand.2 ⟨raw, hget, hraw, hevent⟩
      cases cause with
      | cycle path => rfl
      | depth limit => exact absurd rfl (hcause _ ht limit)
  · intro hconfig hstore
    have hgrows (key raw) (hget : record.get? key = some raw) :
        (record.parsed.expansion store options key raw).GrowsTo
          (record.parsed.expansion store { options with maxDepth } key raw) :=
      Config.expansion_growsTo hle hconfig hstore hget
    constructor
    · intro key value hvalue
      rw [get?_expand] at hvalue ⊢
      obtain ⟨raw, hget, rfl⟩ := Option.map_eq_some_iff.1 hvalue
      refine ⟨_, by rw [hget, Option.map_some], ?_⟩
      by_cases hraw : ['\\', '$'] <:+: raw.toList
      · rw [Config.outcome_deepen hle fun h => absurd hraw h]
      · rw [Config.outcome_of_not_escaped hraw, Config.outcome_of_not_escaped hraw,
          String.toList_ofList, String.toList_ofList]
        exact (hgrows key raw hget).text
    · intro key hkey
      obtain ⟨origin, raw, hget, hraw, hevent⟩ := mem_unresolved_expand.1 hkey
      exact mem_unresolved_expand.2
        ⟨origin, raw, hget, hraw, (hgrows origin raw hget).unresolved key hevent⟩

/-- Keys that lead to one another one after the other, and a key that leads nowhere. -/
def chainedTexts : Record := .ofConfig (.ofList [("A", "a$B$X"), ("B", "b$C"), ("C", "c")])

/-- With a bound of one the chain is cut, and with two it is not. -/
theorem chainedTexts_deepen :
    (chainedTexts.expand (.empty : Table String String) { maxDepth := 1 }).record.get? "A" =
      some "ab" ∧
    (∃ value, (chainedTexts.expand (.empty : Table String String)
      { maxDepth := 2 }).record.get? "A" = some value ∧ "ab".toList.Sublist value.toList) ∧
    "X" ∈ (chainedTexts.expand (.empty : Table String String) { maxDepth := 2 }).report.unresolved ∧
    chainedTexts.expand (.empty : Table String String) { maxDepth := 0xFFFFFFFFFFFFFFFF } =
      chainedTexts.expand (.empty : Table String String) { maxDepth := 2 } := by
  have hconfig (key value) (hget : chainedTexts.get? key = some value) : Plain value := by
    have hentries : ∀ e ∈ chainedTexts.parsed.entries, Plain e.2 := by decide
    exact hentries (key, value) (Table.mem_of_find? hget)
  have hstore (key value) (h : Store.get? (.empty : Table String String) key = some value) :
      Plain value := nomatch h
  have hvalue : (chainedTexts.expand (.empty : Table String String)
      { maxDepth := 1 }).record.get? "A" = some "ab" := by decide
  have hcause : ∀ t ∈ (chainedTexts.expand (.empty : Table String String)
      { maxDepth := 2 }).report.truncated, ∀ limit, t.cause ≠ .depth limit := by
    rw [show (chainedTexts.expand (.empty : Table String String)
      { maxDepth := 2 }).report.truncated = [] by decide]
    exact fun t ht => nomatch ht
  obtain ⟨hvalues, hunresolved⟩ := (expand_deepen chainedTexts (.empty : Table String String)
    { maxDepth := 1 } 2 (by decide)).2 hconfig hstore
  exact ⟨hvalue, hvalues "A" "ab" hvalue, hunresolved "X" (by decide),
    (expand_deepen chainedTexts (.empty : Table String String) { maxDepth := 2 }
      0xFFFFFFFFFFFFFFFF (by decide)).1 hcause⟩

/-- A default is dropped where a greater bound makes something of the key. -/
example :
    let record := Record.ofConfig (.ofList [("A", "${B:-d}"), ("B", "$C"), ("C", "c")])
    (record.expand (.empty : Table String String) { maxDepth := 1 }).record.get? "A" = some "d" ∧
    (record.expand (.empty : Table String String) { maxDepth := 2 }).record.get? "A" = some "c" := by
  decide

end Record

end VarSubst
