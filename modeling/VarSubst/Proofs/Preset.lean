import Mathlib.Data.List.Forall2
import VarSubst.Proofs.Environment
import VarSubst.Proofs.FixedPoint

/-!
# Values that are set beforehand

Every pass writes to the store again what it found there, after an escape or an expansion. A value
that comes out of both unchanged is kept (`Preset`), and where the environment is asked first it
wins over any record (`Config.outcome_of_preset`). No call takes such a value away, and what a pass
returns for the key is this value (`Preset.replyM`); so it is for any number of calls
(`Preset.repliesM_keep`).
-/

namespace VarSubst

variable {σ : Type} [Store σ]

/-- The store has a value under a key that neither escapes nor expansion change. -/
structure Preset (store : σ) (key value : String) : Prop where
  stored : Store.get? store key = some value
  ne_empty : value ≠ ""
  dollarFree : '$' ∉ value.toList
  unescaped : ¬['\\'] <+: value.toList

/-- The call writes nothing itself, and if it is a pass it asks the environment first. -/
def Call.EnvironmentFirst : Call → Prop
  | .read _ => True
  | .write _ _ => False
  | .interpolate _ options _ | .expand _ options | .expandWithReport _ options
  | .expandStrictly _ options => options.environmentFirst = true

/-- What a call may be answered by where the store has the value under the key. A pass returns a
record, unless it is strict and refuses its own, and under the key there is the value if the record
of the call has the key, and else nothing; a report says that it is from the environment. -/
inductive Call.Answered (key value : String) : Call → Reply → Prop where
  | read {name : String} {value? : Option String} : (name = key → value? = some value) →
      Answered key value (.read name) (.value value?)
  | interpolate (config : Config) (options : Options) (text result : String) :
      Answered key value (.interpolate config options text) (.text result)
  | expand {record expanded : Record} (options : Options) :
      expanded.get? key = (record.get? key).map (fun _ => value) →
      Answered key value (.expand record options) (.record expanded)
  | expandWithReport {record expanded : Record} {report : Report} (options : Options) :
      expanded.get? key = (record.get? key).map (fun _ => value) →
      (∀ r : Resolved, r.key = key → (r ∈ report.resolved ↔
        (record.get? key).isSome ∧ r.value = value ∧ r.source = some .environment)) →
      Answered key value (.expandWithReport record options) (.reported expanded report)
  | expandStrictly {record expanded : Record} (options : Options) :
      expanded.get? key = (record.get? key).map (fun _ => value) →
      Answered key value (.expandStrictly record options) (.record expanded)
  | refused (record : Record) (options : Options) (refusal : Refusal) :
      Answered key value (.expandStrictly record options) (.refused refusal)

variable {store : σ} {options : Options} {key value : String}

/-! ## Passes -/

/-- The value is what becomes of the key, whatever is configured. -/
theorem Config.outcome_of_preset (H : Preset store key value)
    (hfirst : options.environmentFirst = true) (config : Config) (raw : String) :
    config.outcome store options key raw =
      { value
        source := some .environment
        escaped := (Escape.ofText? raw).isSome
        events := [] } := by
  have hlookup : config.lookup store options key = some (.environment, value) := by
    simp [lookup, Options.precedence, hfirst, Source.get?, H.stored, H.ne_empty]
  have hselected : config.selected store options key raw = value := by
    rw [selected, hlookup]
    rfl
  rw [outcome_eq, hselected, hlookup]
  cases Escape.ofText? raw with
  | some rule =>
    dsimp only
    rw [rule.apply_eq_self H.unescaped H.dollarFree]
    rfl
  | none =>
    rw [expansion, hselected, Scope.expand_of_dollar_notMem H.dollarFree]
    simp

namespace Preset

theorem get?_expand (H : Preset store key value) (hfirst : options.environmentFirst = true)
    (record : Record) : (record.expand store options).record.get? key =
      (record.get? key).map fun _ => value := by
  rw [Record.get?_expand]
  simp only [Config.outcome_of_preset H hfirst]

theorem mem_resolved_iff (H : Preset store key value) (hfirst : options.environmentFirst = true)
    (record : Record) {r : Resolved} (hr : r.key = key) :
    r ∈ (record.expand store options).report.resolved ↔
      (record.get? key).isSome ∧ r.value = value ∧ r.source = some .environment := by
  rw [Record.mem_resolved_expand, hr]
  simp only [Config.outcome_of_preset H hfirst, exists_and_right, Option.isSome_iff_exists]

/-- A pass writes the value again. -/
theorem expand [LawfulStore σ] (H : Preset store key value)
    (hfirst : options.environmentFirst = true) (record : Record) :
    Preset (record.expand store options).store key value where
  stored := by
    change Store.get? (Store.setAll store (record.expand store options).record.parsed.entries) key =
      some value
    have hget := H.get?_expand hfirst record
    rw [Record.get?] at hget
    rw [Store.get?_setAll, hget, H.stored]
    cases record.get? key with
    | none => rfl
    | some raw =>
      cases hkept : LawfulStore.canStore σ key value <;> simp [Option.filter, hkept]
  ne_empty := H.ne_empty
  dollarFree := H.dollarFree
  unescaped := H.unescaped

/-! ## Calls -/

/-- A call keeps the value, and it is answered with it. -/
theorem replyM [LawfulStore σ] (H : Preset store key value) {call : Call}
    (hcall : call.EnvironmentFirst) : Preset (call.replyM.run store).2 key value ∧
      call.Answered key value (call.replyM.run store).1 := by
  cases call with
  | read name => exact ⟨H, .read fun hname => hname ▸ H.stored⟩
  | write => cases hcall
  | interpolate => exact ⟨H, .interpolate ..⟩
  | expand record options =>
    rw [Call.run_replyM_expand]
    exact ⟨H.expand hcall record, .expand options (H.get?_expand hcall record)⟩
  | expandWithReport record options =>
    rw [Call.run_replyM_expandWithReport]
    exact ⟨H.expand hcall record, .expandWithReport options (H.get?_expand hcall record) fun _ =>
      H.mem_resolved_iff hcall record⟩
  | expandStrictly record options =>
    rcases Call.run_replyM_expandStrictly_cases record options store with ⟨refusal, hrun⟩ | hrun
    · rw [hrun]
      exact ⟨H, .refused record options refusal⟩
    · rw [hrun]
      exact ⟨H.expand hcall record, .expandStrictly options (H.get?_expand hcall record)⟩

/-- **Values set beforehand win, however long the session.** If the environment has a value under a
key that is not empty, holds no dollar and does not start with a backslash, it is still there after
any number of calls that ask the environment first, with any records and any bound on depth. Every
pass on the way over a record with the key returns this value under it, from the environment, unless
it is refused. -/
theorem repliesM_keep [LawfulStore σ] (H : Preset store key value) (calls : List Call)
    (hcalls : ∀ call ∈ calls, call.EnvironmentFirst) :
    Store.get? ((Call.repliesM calls).run store).2 key = some value ∧
      List.Forall₂ (Call.Answered key value) calls ((Call.repliesM calls).run store).1 := by
  induction calls generalizing store with
  | nil => exact ⟨H.stored, .nil⟩
  | cons call calls ih =>
    obtain ⟨hstore, hreply⟩ := H.replyM (hcalls call (.head _))
    obtain ⟨hkept, hreplies⟩ := ih hstore fun call h => hcalls call (.tail _ h)
    rw [Call.run_repliesM_cons]
    exact ⟨hkept, .cons hreply hreplies⟩

end Preset

/-- A process environment with a value for `K`. -/
def homeSet : Environment := Environment.empty.set "K" "v"

/-- An escape for the key, a cycle through it, a record that is refused and a text of its own. -/
def unheeded : List Call :=
  [.expand (.ofConfig (.ofList [("K", "a\\$b"), ("A", "$A$K")])) {},
    .expandStrictly (.ofConfig (.ofList [("K", "a"), ("no key", "$K")])) {},
    .interpolate .empty { maxDepth := 0 } "$K",
    .expandWithReport (.ofConfig (.ofList [("K", "$A"), ("A", "$K")])) { maxDepth := 1 }]

/-- The first record comes back with the value in place of its escape. -/
theorem unheeded_keeps : Preset homeSet "K" "v" ∧
    Store.get? ((Call.repliesM unheeded).run homeSet).2 "K" = some "v" ∧
    ∃ expanded replies, ((Call.repliesM unheeded).run homeSet).1 = .record expanded :: replies ∧
      expanded.get? "K" = some "v" := by
  have hpreset : Preset homeSet "K" "v" := {
    stored := by decide
    ne_empty := by decide
    dollarFree := by decide
    unescaped := by decide }
  obtain ⟨hkept, hreplies⟩ :=
    hpreset.repliesM_keep unheeded (by simp [unheeded, Call.EnvironmentFirst])
  refine ⟨hpreset, hkept, ?_⟩
  generalize ((Call.repliesM unheeded).run homeSet).1 = replies at hreplies
  cases hreplies with
  | cons hfirst _ =>
    cases hfirst with
    | expand _ hget => exact ⟨_, _, rfl, hget⟩

end VarSubst
