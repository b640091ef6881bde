import VarSubst.Proofs.ByteOrder
import VarSubst.Proofs.Outcome
import VarSubst.Session

/-!
# Record, report and store

A pass tells its results three times: in the record that it returns, in its report and in the store.
`Pass.Coherent` says what they hold, given the record and the store as they were before, and that
they agree. All passes over plain stores are coherent (`Record.expandM_coherent`).
-/

namespace VarSubst

/-- Whether a source has a text other than the empty one under a key. -/
def Source.holds {σ : Type} [Store σ] (config : Config) (store : σ) (key : String)
    (source : Source) : Bool :=
  (source.get? config store key).any (· ≠ "")

/-- The results of a pass over a record and a plain store. Keys come in the order of their bytes. -/
structure Pass.Coherent (record : Record) (store : Table String String) (options : Options)
    (p : Pass (Table String String)) : Prop where
  keys : p.record.parsed.keys = record.parsed.keys
  extra : p.record.extra = record.extra
  /-- The report has every key of the record once, with its value. -/
  resolved : p.report.resolved.map (fun r => (r.key, r.value)) = p.record.parsed.entries
  resolved_ascending :
    p.report.resolved.Pairwise fun r r' => Bytes.ofText r.key < Bytes.ofText r'.key
  /-- The source of a value is the first in order of precedence that has a text. -/
  source : ∀ r ∈ p.report.resolved,
    r.source = options.precedence.find? (Source.holds record.parsed store r.key)
  /-- A value without a source is empty, as are the texts of its key if there are any. -/
  sourceless : ∀ r ∈ p.report.resolved, r.source = none →
    (∀ source : Source, ∀ value,
      source.get? record.parsed store r.key = some value → value = "") ∧ r.value = ""
  mem_escaped : ∀ key, key ∈ p.report.escaped ↔
    ∃ raw, record.get? key = some raw ∧ ['\\', '$'] <:+: raw.toList
  escaped_ascending :
    p.report.escaped.Pairwise fun key key' => Bytes.ofText key < Bytes.ofText key'
  /-- To an escaped key its rule is applied and nothing else is done: the rule is read off the
  configured text, and applied to the text of the source. -/
  escaped_value : ∀ key raw, record.get? key = some raw → ['\\', '$'] <:+: raw.toList →
    ∃ source selected rule,
      options.precedence.find? (Source.holds record.parsed store key) = some source ∧
      source.get? record.parsed store key = some selected ∧ Escape.ofText? raw = some rule ∧
      p.record.get? key = some (rule.apply selected)
  /-- The cuts of one key stand together. -/
  truncated_ascending :
    p.report.truncated.Pairwise fun t t' => Bytes.ofText t.origin ≤ Bytes.ofText t'.origin
  truncated_unescaped : ∀ t ∈ p.report.truncated,
    (record.get? t.origin).isSome ∧ t.origin ∉ p.report.escaped
  written : ∀ key value, p.record.get? key = some value → p.store.get? key = some value
  kept : ∀ key, record.get? key = none → p.store.get? key = store.get? key

namespace Config

variable {σ : Type} [Store σ] {config : Config} {store : σ} {options : Options} {key raw : String}

/-! ## Outcomes -/

/-- A text is found in the first source that has one. -/
theorem source_lookup : (config.lookup store options key).map (·.1) =
    options.precedence.find? (Source.holds config store key) := by
  rw [lookup, List.map_findSome?, List.find?_eq_findSome?_guard]
  refine congrArg (List.findSome? · options.precedence) (funext fun source => ?_)
  rw [Function.comp_apply, Option.guard, Source.holds]
  rcases Option.eq_none_or_eq_some (source.get? config store key) with hnone | ⟨value, hsome⟩
  · simp [hnone]
  · by_cases he : value = "" <;> simp [hsome, he]

theorem source_outcome : (config.outcome store options key raw).source =
    options.precedence.find? (Source.holds config store key) := by
  rw [← source_lookup, outcome_eq]
  split <;> rfl

theorem escaped_outcome_iff : (config.outcome store options key raw).escaped = true ↔
    ['\\', '$'] <:+: raw.toList := by
  rw [outcome_eq]
  split
  · next rule hrule =>
    refine iff_of_true rfl (Classical.not_not.1 fun h => ?_)
    rw [Escape.ofText?_eq_none_iff.2 h] at hrule
    cases hrule
  · next hrule => exact iff_of_false Bool.false_ne_true (Escape.ofText?_eq_none_iff.1 hrule)

/-- A configured key that stands for nothing has the empty value. -/
theorem value_outcome_of_lookup_eq_none (hget : config.get? key = some raw)
    (h : config.lookup store options key = none) :
    (config.outcome store options key raw).value = "" := by
  have hraw : raw = "" := lookup_eq_none_iff.1 h .config raw hget
  have hselected : config.selected store options key raw = "" := by
    rw [selected, h, hraw]
    rfl
  have hescape : ¬['\\', '$'] <:+: raw.toList := by
    rw [hraw]
    exact fun h => List.cons_ne_nil _ _ (List.infix_nil.1 h)
  rw [outcome_of_not_escaped hescape, expansion, hselected, Scope.expand_empty]

/-- The rule of an escaped key is applied to the text of a source. -/
theorem exists_value_outcome_of_escaped (store : σ) (options : Options)
    (hget : config.get? key = some raw) (hraw : ['\\', '$'] <:+: raw.toList) :
    ∃ source selected rule,
      options.precedence.find? (Source.holds config store key) = some source ∧
      source.get? config store key = some selected ∧ Escape.ofText? raw = some rule ∧
      (config.outcome store options key raw).value = rule.apply selected := by
  cases hl : config.lookup store options key with
  | none =>
    rw [lookup_eq_none_iff.1 hl .config raw hget] at hraw
    exact absurd (List.infix_nil.1 hraw) (List.cons_ne_nil _ _)
  | some found =>
    obtain ⟨source, text⟩ := found
    have hselected : config.selected store options key raw = text := by
      rw [selected, hl]
      rfl
    cases hrule : Escape.ofText? raw with
    | none => exact absurd hraw (Escape.ofText?_eq_none_iff.1 hrule)
    | some rule =>
      refine ⟨source, text, rule, ?_, get?_of_lookup_eq_some hl, rfl, ?_⟩
      · rw [← source_lookup, hl]
        rfl
      · rw [outcome_eq, hrule, hselected]

/-- The outcomes are in the order of the bytes of their keys. -/
theorem outcomes_ascending : (config.outcomes store options).entries.Pairwise fun e e' =>
    Bytes.ofText e.1 < Bytes.ofText e'.1 :=
  (config.outcomes store options).ascending.imp Bytes.ofText_lt_iff.2

end Config

/-! ## Passes -/

namespace Record

variable {record : Record} {store : Table String String} {options : Options}

/-- The cuts of a key come before those of the next one. -/
theorem truncated_expand_ascending : (record.expand store options).report.truncated.Pairwise
    fun t t' => Bytes.ofText t.origin ≤ Bytes.ofText t'.origin := by
  simp only [expand, Report.ofOutcomes]
  refine List.pairwise_flatMap.2 ⟨?_, ?_⟩
  · intro e _
    refine List.pairwise_of_forall_mem_list fun t ht t' ht' => ?_
    rw [Event.origin_of_mem_truncations ht, Event.origin_of_mem_truncations ht']
    exact Std.le_refl _
  · refine Config.outcomes_ascending.imp fun {e e'} hlt t ht t' ht' => ?_
    rw [Event.origin_of_mem_truncations ht, Event.origin_of_mem_truncations ht']
    exact Std.le_of_lt hlt

/-- **Record, report and store tell the same story.** A lenient pass over a plain store is coherent,
whatever is cut or escaped in it. -/
theorem expandM_coherent (record : Record) (store : Table String String) (options : Options) :
    Pass.Coherent record store options
      { record := ((record.expandM options).run store).1.1
        store := ((record.expandM options).run store).2
        report := ((record.expandM options).run store).1.2 } := by
  rw [run_expandM]
  exact {
    keys := by simp [expand, Config.outcomes]
    extra := rfl
    resolved := by simp [expand, Report.ofOutcomes, Table.map]
    resolved_ascending := List.pairwise_map.2 Config.outcomes_ascending
    source := fun r hr => by
      obtain ⟨raw, -, -, hsource⟩ := mem_resolved_expand.1 hr
      rw [hsource, Config.source_outcome]
    sourceless := fun r hr hnone => by
      obtain ⟨raw, hget, hvalue, hsource⟩ := mem_resolved_expand.1 hr
      rw [hsource, Config.source_outcome, ← Config.source_lookup, Option.map_eq_none_iff] at hnone
      rw [hvalue]
      exact ⟨Config.lookup_eq_none_iff.1 hnone,
        Config.value_outcome_of_lookup_eq_none hget hnone⟩
    mem_escaped := fun key => by
      rw [mem_escaped_expand]
      exact exists_congr fun raw => and_congr_right fun _ => Config.escaped_outcome_iff
    escaped_ascending := List.pairwise_map.2 (Config.outcomes_ascending.filter _)
    escaped_value := fun key raw hget hraw => by
      obtain ⟨source, selected, rule, hfirst, htext, hrule, hvalue⟩ :=
        Config.exists_value_outcome_of_escaped store options hget hraw
      refine ⟨source, selected, rule, hfirst, htext, hrule, ?_⟩
      rw [get?_expand, hget, Option.map_some, hvalue]
    truncated_ascending := truncated_expand_ascending
    truncated_unescaped := fun t ht => by
      obtain ⟨raw, hget, hraw, -⟩ := mem_truncated_expand.1 ht
      refine ⟨Option.isSome_of_eq_some hget, fun hmem => ?_⟩
      obtain ⟨raw', hget', hescaped⟩ := mem_escaped_expand.1 hmem
      obtain rfl := Option.some.inj (hget.symm.trans hget')
      exact hraw (Config.escaped_outcome_iff.1 hescaped)
    written := fun key value hvalue => by
      rw [get?_store_expand, hvalue, Option.some_or]
    kept := fun key hnone => by
      rw [get?_store_expand, get?_expand, hnone, Option.map_none, Option.none_or] }

end Record

end VarSubst
