import VarSubst.Pass

/-!
# What a pass records

The text that is expanded for a key is `Config.selected`, its expansion `Config.expansion`. A pass
gives a key without an escape the text of that expansion (`Record.get?_expand`), and it records the
references that were cut in it and no others (`Record.mem_truncated_expand`).
-/

namespace VarSubst

namespace Source

theorem mem_precedence (options : Options) (source : Source) : source ∈ options.precedence := by
  unfold Options.precedence
  cases source <;> split <;> simp

end Source

namespace Config

variable {σ : Type} [Store σ] {config : Config} {store : σ} {options : Options} {key raw : String}

/-- The text in use for a key whose configured text is `raw`. -/
def selected (config : Config) (store : σ) (options : Options) (key raw : String) : String :=
  ((config.lookup store options key).map (·.2)).getD raw

/-- What the text in use for a key expands to. -/
def expansion (config : Config) (store : σ) (options : Options) (key raw : String) : Expansion :=
  (config.scope store options).expand [key] (config.selected store options key raw)

/-- A key stands for nothing if both sources have nothing or the empty text under it. -/
theorem lookup_eq_none_iff : config.lookup store options key = none ↔
    ∀ source : Source, ∀ value, source.get? config store key = some value → value = "" := by
  rw [lookup, List.findSome?_eq_none_iff]
  constructor
  · intro h source value hv
    have h := h source (source.mem_precedence options)
    rw [hv] at h
    by_cases he : value = ""
    · exact he
    · simp [he] at h
  · intro h source _
    split
    · next value hv => simp [h source value hv]
    · rfl

/-- What a key stands for is in the source that it was found in. -/
theorem get?_of_lookup_eq_some {source : Source} {value : String}
    (h : config.lookup store options key = some (source, value)) :
    source.get? config store key = some value := by
  obtain ⟨source', -, h⟩ := List.exists_of_findSome?_eq_some h
  split at h
  · next value' hv =>
    by_cases he : value' = ""
    · simp [he] at h
    · rw [if_neg he] at h
      cases h
      exact hv
  · cases h

/-- No key stands for the empty text. -/
theorem ne_empty_of_lookup_eq_some {source : Source} {value : String}
    (h : config.lookup store options key = some (source, value)) : value ≠ "" := by
  rintro rfl
  obtain ⟨source', -, h⟩ := List.exists_of_findSome?_eq_some h
  split at h
  · next value' _ =>
    by_cases he : value' = ""
    · simp [he] at h
    · rw [if_neg he] at h
      cases h
      exact he rfl
  · cases h

/-- The text in use for a configured key is what the key stands for, or else it is empty. -/
theorem value?_or_selected_eq_empty (store : σ) (options : Options)
    (h : config.get? key = some raw) :
    (config.scope store options).value? key = some (config.selected store options key raw) ∨
      (config.scope store options).value? key = none ∧
        config.selected store options key raw = "" := by
  cases hl : config.lookup store options key with
  | some found => exact .inl (by simp [scope, selected, hl])
  | none =>
    have hraw : raw = "" := lookup_eq_none_iff.1 hl .config raw h
    exact .inr ⟨by simp [scope, hl], by simp [selected, hl, hraw]⟩

/-- The configured text is in use where the store has nothing to offer, or is asked last. -/
theorem selected_eq_configured (hget : config.get? key = some raw)
    (hsource : (∀ text, Store.get? store key = some text → text = "") ∨
      options.environmentFirst = false ∧ raw ≠ "") :
    config.selected store options key raw = raw := by
  rcases hsource with hblank | ⟨hfirst, hraw⟩
  · cases hfound : config.lookup store options key with
    | none => rw [selected, hfound]; rfl
    | some found =>
      obtain ⟨source, text⟩ := found
      rw [selected, hfound]
      have htext := get?_of_lookup_eq_some hfound
      cases source with
      | config => exact Option.some.inj (htext.symm.trans hget)
      | environment => exact absurd (hblank text htext) (ne_empty_of_lookup_eq_some hfound)
  · have hfound : config.lookup store options key = some (.config, raw) := by
      simp [lookup, Options.precedence, hfirst, Source.get?, hget, hraw]
    rw [selected, hfound]
    rfl

section Sources

variable {P : String → Prop} (hconfig : ∀ key value, config.get? key = some value → P value)
  (hstore : ∀ key value, Store.get? store key = some value → P value)

include hconfig hstore

/-- What holds of all texts in the sources holds of what references see. -/
theorem of_value? {value : String} (h : (config.scope store options).value? key = some value) :
    P value := by
  obtain ⟨⟨source, text⟩, hfound, rfl⟩ := Option.map_eq_some_iff.1 h
  have hget := get?_of_lookup_eq_some hfound
  cases source with
  | config => exact hconfig key text hget
  | environment => exact hstore key text hget

/-- It also holds of the text in use for a configured key, if it holds of the empty text. -/
theorem of_selected (hempty : P "") (hget : config.get? key = some raw) :
    P (config.selected store options key raw) := by
  rcases value?_or_selected_eq_empty store options hget with hv | ⟨-, he⟩
  · exact of_value? hconfig hstore hv
  · rw [he]
    exact hempty

end Sources

theorem get?_outcomes : (config.outcomes store options).get? key =
    (config.get? key).map (config.outcome store options key) := Table.get?_map _ _ _

/-- Where every configured key has the same outcome. -/
theorem outcomes_congr {τ : Type} [Store τ] {store' : τ} {options' : Options}
    (h : ∀ key raw, config.get? key = some raw →
      config.outcome store' options' key raw = config.outcome store options key raw) :
    config.outcomes store' options' = config.outcomes store options :=
  Table.ext (List.map_congr_left fun e he =>
    congrArg (Prod.mk e.1) (h e.1 e.2 (Table.get?_of_mem he)))

theorem outcome_eq (config : Config) (store : σ) (options : Options) (key raw : String) :
    config.outcome store options key raw =
      match Escape.ofText? raw with
      | some rule =>
        { value := rule.apply (config.selected store options key raw)
          source := (config.lookup store options key).map (·.1)
          escaped := true
          events := [] }
      | none =>
        { value := String.ofList (config.expansion store options key raw).text
          source := (config.lookup store options key).map (·.1)
          escaped := false
          events := (config.expansion store options key raw).events } := rfl

theorem outcome_of_not_escaped (h : ¬['\\', '$'] <:+: raw.toList) :
    config.outcome store options key raw =
      { value := String.ofList (config.expansion store options key raw).text
        source := (config.lookup store options key).map (·.1)
        escaped := false
        events := (config.expansion store options key raw).events } := by
  rw [outcome, Escape.ofText?_eq_none_iff.2 h]
  rfl

/-- The outcome for a key hangs on where its text is found and on what that text expands to. -/
theorem outcome_congr {τ : Type} [Store τ] {config' : Config} {store' : τ} {options' : Options}
    (hlookup : config'.lookup store' options' key = config.lookup store options key)
    (hexpansion : ¬['\\', '$'] <:+: raw.toList →
      config'.expansion store' options' key raw = config.expansion store options key raw) :
    config'.outcome store' options' key raw = config.outcome store options key raw := by
  by_cases h : ['\\', '$'] <:+: raw.toList
  · rw [outcome, outcome, hlookup]
    split
    · rfl
    · next hn => exact absurd h (Escape.ofText?_eq_none_iff.1 hn)
  · rw [outcome_of_not_escaped h, outcome_of_not_escaped h, hlookup, hexpansion h]

theorem events_outcome_of_escaped (h : ['\\', '$'] <:+: raw.toList) :
    (config.outcome store options key raw).events = [] := by
  rw [outcome]
  split
  · rfl
  · next hn => exact absurd h (Escape.ofText?_eq_none_iff.1 hn)

/-- What is met for a configured key is met in its expansion, unless the key is escaped. -/
theorem mem_events_outcomes {event : Event} :
    (∃ o, (key, o) ∈ (config.outcomes store options).entries ∧ event ∈ o.events) ↔
      ∃ raw, config.get? key = some raw ∧ ¬['\\', '$'] <:+: raw.toList ∧
        event ∈ (config.expansion store options key raw).events := by
  have hentry : (∃ o, (key, o) ∈ (config.outcomes store options).entries ∧ event ∈ o.events) ↔
      ∃ raw, config.get? key = some raw ∧
        event ∈ (config.outcome store options key raw).events := by
    simp only [Table.mem_entries_iff, get?_outcomes, Option.map_eq_some_iff]
    constructor
    · rintro ⟨_, ⟨raw, hget, rfl⟩, hevent⟩
      exact ⟨raw, hget, hevent⟩
    · rintro ⟨raw, hget, hevent⟩
      exact ⟨_, ⟨raw, hget, rfl⟩, hevent⟩
  rw [hentry]
  refine exists_congr fun raw => and_congr_right fun _ => ?_
  by_cases h : ['\\', '$'] <:+: raw.toList
  · simp [events_outcome_of_escaped h, h]
  · simp [outcome_of_not_escaped h, h]

end Config

namespace Event

theorem unresolved?_eq_some {event : Event} {key : String} :
    event.unresolved? = some key ↔ event = .unresolved key := by
  cases event <;> simp [unresolved?]

theorem truncation?_eq_some {origin : String} {event : Event} {t : Truncation} :
    event.truncation? origin = some t ↔ event = .cut t.key t.cause ∧ t.origin = origin := by
  cases event with
  | unresolved key => simp [truncation?]
  | cut key cause =>
    obtain ⟨o, k, c⟩ := t
    simp only [truncation?, Option.some.injEq, Truncation.mk.injEq, cut.injEq]
    exact ⟨fun ⟨ho, hk, hc⟩ => ⟨⟨hk, hc⟩, ho.symm⟩, fun ⟨⟨hk, hc⟩, ho⟩ => ⟨ho.symm, hk, hc⟩⟩

theorem origin_of_mem_truncations {origin : String} {events : List Event} {t : Truncation}
    (h : t ∈ events.filterMap (truncation? origin)) : t.origin = origin := by
  obtain ⟨event, -, he⟩ := List.mem_filterMap.1 h
  exact (truncation?_eq_some.1 he).2

end Event

namespace Record

variable {σ : Type} [Store σ] {record : Record} {store : σ} {options : Options}

/-- A pass is the same for two situations that give every key the same outcome. -/
theorem expand_congr {options' : Options}
    (h : ∀ key raw, record.get? key = some raw → record.parsed.outcome store options' key raw =
      record.parsed.outcome store options key raw) :
    record.expand store options' = record.expand store options := by
  rw [expand, expand, Config.outcomes_congr h]

theorem get?_expand (key : String) : (record.expand store options).record.get? key =
    (record.get? key).map fun raw => (record.parsed.outcome store options key raw).value := by
  simp only [expand, get?, Config.outcomes, Table.get?_map, Option.map_map]
  rfl

/-- A plain store has the new values under the keys of the record, and else what it had. -/
theorem get?_store_expand (store : Table String String) (key : String) :
    (record.expand store options).store.get? key =
      ((record.expand store options).record.get? key).or (store.get? key) :=
  Store.get?_setAll_entries store (record.expand store options).record.parsed key

/-- A pass records the references that were cut in the expansions of its keys without escapes. -/
theorem mem_truncated_expand {t : Truncation} :
    t ∈ (record.expand store options).report.truncated ↔
      ∃ raw, record.get? t.origin = some raw ∧ ¬['\\', '$'] <:+: raw.toList ∧
        .cut t.key t.cause ∈ (record.parsed.expansion store options t.origin raw).events := by
  refine Iff.trans ?_ Config.mem_events_outcomes
  simp only [expand, Report.ofOutcomes, List.mem_flatMap, List.mem_filterMap,
    Event.truncation?_eq_some]
  constructor
  · rintro ⟨⟨key, o⟩, hmem, _, hevent, rfl, rfl⟩
    exact ⟨o, hmem, hevent⟩
  · rintro ⟨o, hmem, hevent⟩
    exact ⟨_, hmem, _, hevent, rfl, rfl⟩

/-- It lists the keys that stood for nothing in these expansions. -/
theorem mem_unresolved_expand {key : String} :
    key ∈ (record.expand store options).report.unresolved ↔
      ∃ origin raw, record.get? origin = some raw ∧ ¬['\\', '$'] <:+: raw.toList ∧
        .unresolved key ∈ (record.parsed.expansion store options origin raw).events := by
  refine Iff.trans ?_ (exists_congr fun origin => Config.mem_events_outcomes)
  simp only [expand, Report.ofOutcomes, List.mem_eraseDups, List.mem_flatMap, List.mem_filterMap,
    Event.unresolved?_eq_some]
  constructor
  · rintro ⟨⟨origin, o⟩, hmem, _, hevent, rfl⟩
    exact ⟨origin, o, hmem, hevent⟩
  · rintro ⟨origin, o, hmem, hevent⟩
    exact ⟨_, hmem, _, hevent, rfl⟩

/-- The cuts that a pass records for a key are those in its outcome, in the same order. -/
theorem filter_truncated_expand {key raw : String} (hget : record.get? key = some raw) :
    (record.expand store options).report.truncated.filter (·.origin = key) =
      (record.parsed.outcome store options key raw).events.filterMap (Event.truncation? key) := by
  have hothers (e : String × Outcome) (he : e.1 ≠ key) :
      (e.2.events.filterMap (Event.truncation? e.1)).filter (·.origin = key) = [] := by
    refine List.filter_eq_nil_iff.2 fun t ht => ?_
    simpa [Event.origin_of_mem_truncations ht] using he
  simp only [expand, Report.ofOutcomes, List.filter_flatMap]
  rw [Table.flatMap_entries_of_ne _ key _ hothers, Config.get?_outcomes]
  rw [get?] at hget
  rw [hget]
  refine List.filter_eq_self.2 fun t ht => ?_
  simpa using Event.origin_of_mem_truncations ht

theorem mem_resolved_expand {r : Resolved} :
    r ∈ (record.expand store options).report.resolved ↔
      ∃ raw, record.get? r.key = some raw ∧
        r.value = (record.parsed.outcome store options r.key raw).value ∧
        r.source = (record.parsed.outcome store options r.key raw).source := by
  simp only [expand, Report.ofOutcomes, List.mem_map, Prod.exists, Table.mem_entries_iff,
    Config.get?_outcomes, Option.map_eq_some_iff]
  constructor
  · rintro ⟨_, _, ⟨raw, hget, rfl⟩, rfl⟩
    exact ⟨raw, hget, rfl, rfl⟩
  · rintro ⟨raw, hget, hvalue, hsource⟩
    exact ⟨_, _, ⟨raw, hget, rfl⟩, by rw [← hvalue, ← hsource]⟩

theorem mem_escaped_expand {key : String} :
    key ∈ (record.expand store options).report.escaped ↔
      ∃ raw, record.get? key = some raw ∧
        (record.parsed.outcome store options key raw).escaped = true := by
  simp only [expand, Report.ofOutcomes, List.mem_map, List.mem_filter, Prod.exists,
    Table.mem_entries_iff, Config.get?_outcomes, Option.map_eq_some_iff]
  constructor
  · rintro ⟨_, _, ⟨⟨raw, hget, rfl⟩, hescaped⟩, rfl⟩
    exact ⟨raw, hget, hescaped⟩
  · rintro ⟨raw, hget, hescaped⟩
    exact ⟨_, _, ⟨⟨raw, hget, rfl⟩, hescaped⟩, rfl⟩

/-- A pass records no cut for a key without an escape exactly if its expansion is complete. -/
theorem untruncated_iff_complete {key raw : String} (hget : record.get? key = some raw)
    (hraw : ¬['\\', '$'] <:+: raw.toList) :
    (∀ t ∈ (record.expand store options).report.truncated, t.origin ≠ key) ↔
      (record.parsed.expansion store options key raw).Complete := by
  constructor
  · intro h event hevent
    cases event with
    | unresolved k => rfl
    | cut k cause =>
      exact absurd rfl (h ⟨key, k, cause⟩ (mem_truncated_expand.2 ⟨raw, hget, hraw, hevent⟩))
  · rintro hc t ht rfl
    obtain ⟨raw', hget', -, hmem⟩ := mem_truncated_expand.1 ht
    rw [hget] at hget'
    cases hget'
    exact nomatch hc _ hmem

/-- The value of a key without an escape is the text of its expansion. -/
theorem get?_expand_of_not_escaped {key raw : String} (hget : record.get? key = some raw)
    (hraw : ¬['\\', '$'] <:+: raw.toList) : (record.expand store options).record.get? key =
      some (String.ofList (record.parsed.expansion store options key raw).text) := by
  rw [get?_expand, hget, Option.map_some, Config.outcome_of_not_escaped hraw]

/-- A strict pass refuses a record for a name that is no key, or else for the first cut. -/
theorem expandStrictly_eq_error {refusal : Refusal}
    (h : record.expandStrictly store options = .error refusal) :
    (∃ e, record.validate = .error e ∧ refusal = .invalidKey e) ∨
      ∃ t, (record.expand store options).report.truncated.head? = some t ∧
        refusal = .ofTruncation t := by
  unfold expandStrictly at h
  split at h
  · next e hv =>
    cases h
    exact .inl ⟨e, hv, rfl⟩
  · dsimp only at h
    split at h
    · cases h
    · next t _ ht =>
      cases h
      exact .inr ⟨t, by rw [ht]; rfl, rfl⟩

end Record

end VarSubst
