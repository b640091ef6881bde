import Mathlib.Data.List.Infix
import Mathlib.Data.List.Induction
import Mathlib.Data.List.Sort
import VarSubst.Proofs.Evaluation
import VarSubst.Proofs.Scan
import VarSubst.Proofs.Truncation

/-!
# Keys that stand for nothing

A pass lists the keys that stood for nothing where references led to them. Each of them is a key in
neither source to which a configured key leads, so it is on no cycle
(`Config.unresolved_of_mem_events`). None is left out that a text in use refers to itself, and where
nothing is cut the list is the one that evaluation without guards gives, each key where it is met
first (`Record.unresolved_exact`).
-/

namespace VarSubst

/-! ## First meetings -/

/-- What was met, each thing once and in the order in which it was met first. -/
structure FirstMet {α : Type} [DecidableEq α] (met found : List α) : Prop where
  mem_iff : ∀ a, a ∈ found ↔ a ∈ met
  ordered : found.Pairwise fun a b => met.idxOf a < met.idxOf b

namespace FirstMet

variable {α : Type} [DecidableEq α] {met found found' : List α}

theorem nodup (h : FirstMet met found) : found.Nodup := by
  refine h.ordered.imp ?_
  intro a b hlt heq
  rw [heq] at hlt
  exact Nat.lt_irrefl _ hlt

/-- There is one such list only. -/
theorem unique (h : FirstMet met found) (h' : FirstMet met found') : found = found' := by
  have hmem : ∀ a, a ∈ found ↔ a ∈ found' := fun a => by rw [h.mem_iff, h'.mem_iff]
  have hperm := (List.perm_ext_iff_of_nodup h.nodup h'.nodup).2 hmem
  refine hperm.eq_of_pairwise ?_ h.ordered h'.ordered
  intro a b _ _ hab hba
  exact absurd hab (Nat.lt_asymm hba)

theorem eraseDups (met : List α) : FirstMet met met.eraseDups := by
  constructor
  · intro a
    exact List.mem_eraseDups
  · induction met using List.reverseRecOn with
    | nil => exact .nil
    | append_singleton met a ih =>
      have hkeep : ∀ b ∈ met.eraseDups, (met ++ [a]).idxOf b = met.idxOf b :=
        fun b hb => List.idxOf_append_of_mem (List.mem_eraseDups.1 hb)
      have ih : met.eraseDups.Pairwise fun b c => (met ++ [a]).idxOf b < (met ++ [a]).idxOf c := by
        refine ih.imp_of_mem fun hb hc hlt => ?_
        rwa [hkeep _ hb, hkeep _ hc]
      rw [List.eraseDups_append]
      by_cases ha : a ∈ met
      · simpa [List.removeAll, ha] using ih
      · -- what is met last, and for the first time, comes behind all that was met before
        have hlast : (met ++ [a]).idxOf a = met.length := by
          simp [List.idxOf_append_of_notMem ha]
        have hnew : ([a].removeAll met).eraseDups = [a] := by
          simp [List.removeAll, ha, List.eraseDups_cons]
        rw [hnew, List.pairwise_append]
        refine ⟨ih, List.pairwise_singleton _ _, ?_⟩
        intro b hb c hc
        cases List.mem_singleton.1 hc
        rw [hkeep b hb, hlast]
        exact List.idxOf_lt_length_of_mem (List.mem_eraseDups.1 hb)

theorem iff_eq_eraseDups : FirstMet met found ↔ found = met.eraseDups := by
  constructor
  · intro h
    exact h.unique (eraseDups met)
  · intro h
    rw [h]
    exact eraseDups met

end FirstMet

/-! ## Expansions -/

variable {σ : Type} [Store σ]

namespace Config

variable {config : Config} {store : σ} {options : Options} {origin key raw : String}

/-- What is unresolved in the expansion of a configured key is a key that stands for nothing, and
the configured one leads to it. -/
theorem unresolved_of_mem_events (hget : config.get? origin = some raw)
    (h : .unresolved key ∈ (config.expansion store options origin raw).events) :
    isKey key ∧ (config.scope store options).value? key = none ∧
      Relation.TransGen (RefersTo (config.scope store options).value?) origin key := by
  obtain ⟨n, left, f, -, -, htrace, hemit⟩ := exists_trace hget h
  cases hemit with
  | unresolved hr _ hv => exact ⟨Template.isKey_of_mem hr, hv, htrace.transGen hr⟩

/-- What the text in use for a key refers to is found to stand for nothing if it does. -/
theorem mem_events_of_value?_eq_none (hget : config.get? origin = some raw)
    (hdepth : 0 < options.maxDepth.toNat) {r : Reference}
    (hr : .reference r ∈ Template.ofText (config.selected store options origin raw))
    (hv : (config.scope store options).value? r.key = none) :
    .unresolved r.key ∈ (config.expansion store options origin raw).events := by
  have hne : r.key ∉ [origin] := by
    intro hmem
    rw [List.mem_singleton.1 hmem] at hv
    rcases value?_or_selected_eq_empty store options hget with hv' | ⟨-, he⟩
    · exact nomatch hv.symm.trans hv'
    · rw [he] at hr
      exact nomatch hr
  obtain ⟨depth, hdepth⟩ : ∃ depth, options.maxDepth.toNat = depth + 1 :=
    ⟨options.maxDepth.toNat - 1, by omega⟩
  have hmaxDepth : (config.scope store options).maxDepth.toNat = depth + 1 := hdepth
  rw [expansion, Scope.expand, hmaxDepth]
  refine Expansion.mem_events_fill.2 ⟨r, hr, Scope.mem_events_of_mem_expandKey ?_⟩
  rw [Scope.expandKey_of_none hne hv]
  exact List.mem_singleton_self _

theorem value?_eq_none_iff : (config.scope store options).value? key = none ↔
    ∀ source : Source, ∀ value, source.get? config store key = some value → value = "" := by
  rw [← lookup_eq_none_iff, scope, Option.map_eq_none_iff]

/-- The entries without escapes, in ascending order of their keys. -/
def unescaped (config : Config) : List (String × String) :=
  config.entries.filter fun e => ¬['\\', '$'] <:+: e.2.toList

theorem mem_unescaped_iff : (key, raw) ∈ config.unescaped ↔
    config.get? key = some raw ∧ ¬['\\', '$'] <:+: raw.toList := by
  simp [unescaped, Table.mem_entries_iff]

/-- What is gathered from all entries, if those with escapes have nothing to give. -/
theorem flatMap_unescaped {β : Type} {f : String × String → List β}
    (h : ∀ e, ['\\', '$'] <:+: e.2.toList → f e = []) :
    config.unescaped.flatMap f = config.entries.flatMap f := by
  rw [unescaped]
  induction config.entries with
  | nil => rfl
  | cons e l ih =>
    by_cases he : ['\\', '$'] <:+: e.2.toList
    · rw [List.filter_cons_of_neg (by simpa using he), List.flatMap_cons, ih, h e he,
        List.nil_append]
    · rw [List.filter_cons_of_pos (by simpa using he), List.flatMap_cons, List.flatMap_cons, ih]

end Config

/-- The keys that an expansion found to stand for nothing, in the order in which it met them. -/
def Expansion.unresolved (e : Expansion) : List String := e.events.filterMap Event.unresolved?

/-! ## Passes -/

namespace Record

variable {record : Record} {store : σ} {options : Options}

/-- A pass lists what the expansions of its keys without escapes found to stand for nothing. -/
theorem firstMet_unresolved_expand :
    FirstMet (record.parsed.unescaped.flatMap fun e =>
        (record.parsed.expansion store options e.1 e.2).unresolved)
      (record.expand store options).report.unresolved := by
  have hexpansion : record.parsed.unescaped.flatMap (fun e =>
      (record.parsed.expansion store options e.1 e.2).unresolved) =
        record.parsed.unescaped.flatMap fun e =>
          (record.parsed.outcome store options e.1 e.2).events.filterMap Event.unresolved? := by
    apply List.flatMap_congr
    intro e he
    rw [Config.outcome_of_not_escaped (Config.mem_unescaped_iff.1 he).2]
    rfl
  have hescaped (e : String × String) (he : ['\\', '$'] <:+: e.2.toList) :
      (record.parsed.outcome store options e.1 e.2).events.filterMap Event.unresolved? = [] := by
    rw [Config.events_outcome_of_escaped he]
    rfl
  rw [hexpansion, Config.flatMap_unescaped hescaped, FirstMet.iff_eq_eraseDups]
  simp only [expand, Report.ofOutcomes, Config.outcomes, Table.map, List.flatMap_map]

/-- A key that stands for nothing is not on the path of a cycle. -/
theorem notMem_path_of_value?_eq_none {t : Truncation} {path : List String} {key : String}
    (ht : t ∈ (record.expand store options).report.truncated) (hcause : t.cause = .cycle path)
    (hv : (record.parsed.scope store options).value? key = none) : key ≠ t.key ∧ key ∉ path := by
  obtain ⟨raw, -, -, hgenuine⟩ := genuine_of_mem_truncated ht
  rw [hcause] at hgenuine
  have hnotMem : key ∉ path := by
    intro hmem
    have hsome := hgenuine.1.valued key hmem
    rw [hv] at hsome
    cases hsome
  refine ⟨?_, hnotMem⟩
  intro heq
  exact hnotMem (heq ▸ hgenuine.1.mem)

/-- Where nothing is cut, the expansions of the keys without escapes are evaluations. -/
theorem evaluatesTo_expansion (huncut : (record.expand store options).report.truncated = [])
    {e : String × String} (he : e ∈ record.parsed.unescaped) :
    ∃ height, record.parsed.EvaluatesTo store options
      (record.parsed.selected store options e.1 e.2)
      (record.parsed.expansion store options e.1 e.2) height := by
  obtain ⟨hget, hraw⟩ := Config.mem_unescaped_iff.1 he
  have hc : (record.parsed.expansion store options e.1 e.2).Complete := by
    apply (untruncated_iff_complete hget hraw).1
    rw [huncut]
    exact fun t ht => nomatch ht
  obtain ⟨height, -, H⟩ := Scope.exists_evaluates _ _ _ hc
  exact ⟨height, H⟩

/-- **The unresolved keys.** They are listed without repeats. Each of them is a key that has no text
in either source, or the empty one; some key without an escape leads to it; and it is not on the
path of a cycle that was cut. Where anything may nest, every such key is listed to which a text in
use refers itself. Where nothing is cut, the list is that of the keys which stand for nothing in the
evaluations of the texts in use, taken in order of their keys, each where it is met first. -/
theorem unresolved_exact (record : Record) (store : σ) (options : Options) :
    (record.expand store options).report.unresolved.Nodup ∧
    (∀ key ∈ (record.expand store options).report.unresolved,
      isKey key ∧
      (∀ source : Source, ∀ value,
        source.get? record.parsed store key = some value → value = "") ∧
      (∃ origin raw, record.get? origin = some raw ∧ ¬['\\', '$'] <:+: raw.toList ∧
        Relation.TransGen (RefersTo (record.parsed.scope store options).value?) origin key) ∧
      ∀ t ∈ (record.expand store options).report.truncated, ∀ path, t.cause = .cycle path →
        key ≠ t.key ∧ key ∉ path) ∧
    (1 ≤ options.maxDepth.toNat →
      ∀ origin raw, record.get? origin = some raw → ¬['\\', '$'] <:+: raw.toList →
        ∀ p ∈ Template.references (record.parsed.selected store options origin raw),
          (∀ source : Source, ∀ value,
            source.get? record.parsed store p.reference.key = some value → value = "") →
          p.reference.key ∈ (record.expand store options).report.unresolved) ∧
    ((record.expand store options).report.truncated = [] →
      ∃ evaluated : String × String → Expansion,
        (∀ e ∈ record.parsed.unescaped, ∃ height, record.parsed.EvaluatesTo store options
          (record.parsed.selected store options e.1 e.2) (evaluated e) height) ∧
        ∀ found,
          FirstMet (record.parsed.unescaped.flatMap fun e => (evaluated e).unresolved) found ↔
            found = (record.expand store options).report.unresolved) := by
  have hmet : FirstMet (record.parsed.unescaped.flatMap fun e =>
      (record.parsed.expansion store options e.1 e.2).unresolved)
        (record.expand store options).report.unresolved := firstMet_unresolved_expand
  refine ⟨hmet.nodup, ?_, ?_, ?_⟩
  · intro key hkey
    obtain ⟨origin, raw, hget, hraw, hevent⟩ := mem_unresolved_expand.1 hkey
    obtain ⟨hkey, hv, hleads⟩ := Config.unresolved_of_mem_events hget hevent
    refine ⟨hkey, Config.value?_eq_none_iff.1 hv, ⟨origin, raw, hget, hraw, hleads⟩, ?_⟩
    intro t ht path hcause
    exact notMem_path_of_value?_eq_none ht hcause hv
  · intro hdepth origin raw hget hraw p hp hnone
    have hr := Template.exists_mem_placed_iff.1 ⟨p, hp, rfl⟩
    exact mem_unresolved_expand.2 ⟨origin, raw, hget, hraw,
      Config.mem_events_of_value?_eq_none hget hdepth hr (Config.value?_eq_none_iff.2 hnone)⟩
  · intro huncut
    refine ⟨fun e => record.parsed.expansion store options e.1 e.2, ?_, ?_⟩
    · intro e he
      exact evaluatesTo_expansion huncut he
    · intro found
      constructor
      · intro h
        exact h.unique hmet
      · intro h
        rw [h]
        exact hmet

/-- Keys that stand for nothing in a text that is referred to, in a text and in its default; the
text of the key between is escaped. -/
def gapTexts : Record := .ofConfig (.ofList [("A", "$C${X:-$Y}$X"), ("B", "\\$Z"), ("C", "$Y")])

theorem gapTexts_unresolved :
    (gapTexts.expand (.empty : Table String String) {}).report.unresolved = ["Y", "X"] ∧
    (∃ origin raw, gapTexts.get? origin = some raw ∧ ¬['\\', '$'] <:+: raw.toList ∧
      Relation.TransGen
        (RefersTo (gapTexts.parsed.scope (.empty : Table String String) {}).value?) origin "Y") ∧
    "X" ∈ (gapTexts.expand (.empty : Table String String) {}).report.unresolved ∧
    ∃ evaluated : String × String → Expansion,
      (∀ e ∈ gapTexts.parsed.unescaped, ∃ height,
        gapTexts.parsed.EvaluatesTo (.empty : Table String String) {}
          (gapTexts.parsed.selected (.empty : Table String String) {} e.1 e.2)
          (evaluated e) height) ∧
      FirstMet (gapTexts.parsed.unescaped.flatMap fun e => (evaluated e).unresolved) ["Y", "X"] := by
  have hunresolved : (gapTexts.expand (.empty : Table String String) {}).report.unresolved =
      ["Y", "X"] := by decide +kernel
  have huncut : (gapTexts.expand (.empty : Table String String) {}).report.truncated = [] := by
    decide +kernel
  have hselected : gapTexts.parsed.selected (.empty : Table String String) {} "A" "$C${X:-$Y}$X" =
      "$C${X:-$Y}$X" := by decide
  have hX : ∀ source : Source, ∀ value,
      source.get? gapTexts.parsed (.empty : Table String String) "X" = some value → value = "" := by
    intro source value hvalue
    have hnone : source.get? gapTexts.parsed (.empty : Table String String) "X" = none := by
      cases source <;> decide
    exact nomatch hnone.symm.trans hvalue
  obtain ⟨-, hsound, hcomplete, hexact⟩ :=
    unresolved_exact gapTexts (.empty : Table String String) {}
  obtain ⟨evaluated, hevaluated, hfirst⟩ := hexact huncut
  refine ⟨hunresolved, (hsound "Y" (by rw [hunresolved]; decide)).2.2.1, ?_, evaluated, hevaluated,
    (hfirst _).2 hunresolved.symm⟩
  refine hcomplete (by decide) "A" "$C${X:-$Y}$X" (by decide)
    (Escape.ofText?_eq_none_iff.1 (by decide)) ⟨⟨"X", .bare⟩, 10, 12⟩ ?_ hX
  rw [hselected]
  decide

end Record

end VarSubst
