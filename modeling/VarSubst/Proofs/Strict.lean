import VarSubst.Proofs.ByteOrder
import VarSubst.Proofs.Evaluation
import VarSubst.Session

/-!
# Strict passes

A strict evaluation goes through a text as expansion does, but ends at the first reference to be
cut: the references from left to right, in each of them the key before the default, and in a record
the keys in ascending order (`Config.strictValues`). What a lenient pass records tells what the strict
evaluation comes to (`Record.strictValues_eq`).
-/

namespace VarSubst

/-- The first of the errors, or the result if there are none. -/
def firstOr {ε α : Type} (errors : List ε) (result : α) : Except ε α :=
  match errors with
  | [] => .ok result
  | e :: _ => .error e

/-- A reference at which a strict evaluation ends. -/
structure Stop where
  key : String
  cause : Cut
  deriving DecidableEq, Repr

def Stop.truncation (origin : String) (stop : Stop) : Truncation :=
  { origin, key := stop.key, cause := stop.cause }

/-! ## Strict evaluation -/

/-- The text of a template whose references are evaluated from left to right. -/
def Template.strictFill (reference : Reference → Except Stop (List Char)) :
    Template → Except Stop (List Char)
  | [] => return []
  | .literal c :: t => return c :: (← strictFill reference t)
  | .reference r :: t => return (← reference r) ++ (← strictFill reference t)

namespace Scope

/-- Evaluates a key inside the expansions of the keys in `path`, where `inner` evaluates the text
that it stands for. -/
def strictKey (s : Scope) (inner : List String → List Char → Except Stop (List Char))
    (path : List String) (key : String) : Except Stop (List Char) :=
  if key ∈ path then throw ⟨key, .cycle path⟩
  else
    match s.value? key with
    | none => return []
    | some value => inner (path ++ [key]) value.toList

/-- Evaluates the key of a reference and, where that comes to nothing, its default. -/
def strictReference (s : Scope) (inner : List String → List Char → Except Stop (List Char))
    (path : List String) (r : Reference) : Except Stop (List Char) := do
  let value ← s.strictKey inner path r.key
  match value, r.default? with
  | [], some body => inner path body.toList
  | _, _ => return value

/-- Evaluates a text inside which texts may nest `depth` deep. -/
def strictWithin (s : Scope) : (depth : Nat) → (path : List String) → List Char →
    Except Stop (List Char)
  | 0, _, text => Template.strictFill (fun r => throw ⟨r.key, .depth s.maxDepth⟩) (.ofChars text)
  | depth + 1, path, text =>
    Template.strictFill (s.strictReference (s.strictWithin depth) path) (.ofChars text)

end Scope

namespace Config

variable {σ : Type} [Store σ]

/-- Evaluates the text in use for a key, or applies the escape in its configured text. -/
def strictValue (config : Config) (store : σ) (options : Options) (key raw : String) :
    Except Truncation (String × String) :=
  let value := config.selected store options key raw
  match Escape.ofText? raw with
  | some rule => return (key, rule.apply value)
  | none =>
    let text := (config.scope store options).strictWithin options.maxDepth.toNat [key] value.toList
    (text.mapError (·.truncation key)).map fun text => (key, String.ofList text)

/-- Evaluates the keys one after the other. -/
def strictValues (config : Config) (store : σ) (options : Options) :
    Except Truncation (List (String × String)) :=
  config.entries.mapM fun (key, raw) => config.strictValue store options key raw

end Config

/-! ## First errors -/

section FirstOr

variable {ε ε' α β : Type}

theorem map_firstOr (f : ε → ε') (g : α → β) (errors : List ε) (result : α) :
    ((firstOr errors result).mapError f).map g = firstOr (errors.map f) (g result) := by
  cases errors <;> rfl

theorem firstOr_append (errors errors' : List ε) (text text' : List α) :
    firstOr (errors ++ errors') (text ++ text') =
      (do return (← firstOr errors text) ++ (← firstOr errors' text')) := by
  cases errors with
  | cons e _ => rfl
  | nil => cases errors' <;> rfl

theorem mapM_firstOr (errors : α → List ε) (result : α → β) (l : List α) :
    l.mapM (fun a => firstOr (errors a) (result a)) =
      firstOr (l.flatMap errors) (l.map result) := by
  induction l with
  | nil => rfl
  | cons a l ih =>
    rw [List.mapM_cons, ih, List.flatMap_cons]
    cases errors a with
    | cons e _ => rfl
    | nil => cases h : l.flatMap errors <;> simp <;> rfl

end FirstOr

/-! ## What expansions tell about strict evaluations -/

def Event.stop? : Event → Option Stop
  | .unresolved _ => none
  | .cut key cause => some ⟨key, cause⟩

theorem Event.truncation?_eq (origin : String) :
    Event.truncation? origin = fun event => event.stop?.map (·.truncation origin) := by
  funext event
  cases event <;> rfl

namespace Expansion

/-- The text, or the first reference that was cut. -/
def strict (e : Expansion) : Except Stop (List Char) :=
  firstOr (e.events.filterMap Event.stop?) e.text

variable {e e' : Expansion}

theorem text_eq_of_strict {text : List Char} (h : e.strict = .ok text) : e.text = text := by
  unfold strict firstOr at h
  split at h
  · exact Except.ok.inj h
  · cases h

theorem strict_append : (e ++ e').strict = do return (← e.strict) ++ (← e'.strict) := by
  rw [strict, events_append, List.filterMap_append]
  exact firstOr_append _ _ _ _

theorem strict_fill {f : Reference → Expansion} {t : Template} :
    (fill f t).strict = t.strictFill fun r => (f r).strict := by
  induction t with
  | nil => rfl
  | cons segment t ih =>
    cases segment with
    | reference r => rw [fill_reference, strict_append, ih]; rfl
    | literal c =>
      rw [Template.strictFill, ← ih]
      exact firstOr_append [] _ [c] _

end Expansion

namespace Scope

variable {s : Scope} {inner : List String → List Char → Expansion} {path : List String}

theorem strict_expandKey {key : String} : (s.expandKey inner path key).strict =
    s.strictKey (fun path text => (inner path text).strict) path key := by
  unfold expandKey strictKey
  split
  · rfl
  · cases s.value? key <;> rfl

theorem strict_expandReference {r : Reference} : (s.expandReference inner path r).strict =
    s.strictReference (fun path text => (inner path text).strict) path r := by
  rw [strictReference, ← strict_expandKey]
  cases hk : (s.expandKey inner path r.key).strict with
  | error stop =>
    rcases s.expandReference_cases inner path r with ⟨-, hr⟩ | ⟨body, -, -, hr⟩
    · rw [hr, hk]
      rfl
    · rw [hr, Expansion.strict_append, hk]
      rfl
  | ok value =>
    have hvalue := Expansion.text_eq_of_strict hk
    rcases s.expandReference_cases inner path r with ⟨hne, hr⟩ | ⟨body, he, hd, hr⟩
    · rw [hr, hk]
      change Except.ok _ = match value, r.default? with | [], some body => _ | _, _ => _
      split
      · next hd => simp [hvalue, hd] at hne
      · rfl
    · obtain rfl : value = [] := hvalue.symm.trans he
      rw [hr, Expansion.strict_append, hk, hd]
      change _ = (inner path body.toList).strict
      cases (inner path body.toList).strict <;> rfl

/-- A strict evaluation ends at the first cut that the expansion has recorded. -/
theorem strict_expandWithin (depth : Nat) (path : List String) (text : List Char) :
    (s.expandWithin depth path text).strict = s.strictWithin depth path text := by
  induction depth generalizing path text with
  | zero => exact Expansion.strict_fill
  | succ depth ih =>
    have hinner : (fun path text => (s.expandWithin depth path text).strict) =
        s.strictWithin depth :=
      funext fun path => funext fun text => ih path text
    rw [expandWithin, Expansion.strict_fill, strictWithin, ← hinner]
    exact congrArg (Template.strictFill · _) (funext fun r => strict_expandReference)

end Scope

variable {σ : Type} [Store σ]

/-- A strict evaluation of a key ends at the first cut in its outcome. -/
theorem Config.strictValue_eq (config : Config) (store : σ) (options : Options)
    (key raw : String) : config.strictValue store options key raw =
      firstOr ((config.outcome store options key raw).events.filterMap (Event.truncation? key))
        (key, (config.outcome store options key raw).value) := by
  rw [strictValue, outcome]
  cases Escape.ofText? raw with
  | some rule => rfl
  | none =>
    dsimp only
    rw [← Scope.strict_expandWithin, Event.truncation?_eq, ← List.map_filterMap]
    exact map_firstOr _ _ _ _

namespace Record

variable {record : Record} {store : σ} {options : Options}

/-- A strict evaluation of a record ends at the first cut that a lenient pass records, and gives the
values of that pass if there is none. -/
theorem strictValues_eq (record : Record) (store : σ) (options : Options) :
    record.parsed.strictValues store options =
      firstOr (record.expand store options).report.truncated
        (record.expand store options).record.parsed.entries := by
  rw [Config.strictValues]
  simp only [Config.strictValue_eq]
  rw [mapM_firstOr]
  simp only [expand, Report.ofOutcomes, Config.outcomes, Table.map, List.flatMap_map, List.map_map]
  rfl

/-! ## Refusals -/

/-- Either all names are keys, or the record is refused for the least that is none. -/
theorem validate_cases (record : Record) :
    (record.validate = .ok () ∧ ∀ key, (record.get? key).isSome → isKey key) ∨
    ∃ key, record.validate = .error ⟨key⟩ ∧ (record.get? key).isSome ∧ ¬isKey key ∧
      ∀ key', (record.get? key').isSome → ¬isKey key' → key ≤ key' := by
  unfold validate
  cases h : record.parsed.keys.find? fun key => !isKey key with
  | none =>
    refine .inl ⟨rfl, fun key hkey => ?_⟩
    simpa using List.find?_eq_none.1 h key (Table.mem_keys_iff.2 hkey)
  | some key =>
    obtain ⟨hkey, before, after, hkeys, hbefore⟩ := List.find?_eq_some_iff_append.1 h
    refine .inr ⟨key, rfl, ?_, by simpa using hkey, fun key' hkey' hnot => ?_⟩
    · exact Table.mem_keys_iff.1 (hkeys ▸ List.mem_append_right before List.mem_cons_self)
    · have hordered := List.pairwise_map.2 record.parsed.ascending
      change record.parsed.keys.Pairwise (· < ·) at hordered
      have hmem := Table.mem_keys_iff.2 hkey'
      rw [hkeys] at hordered hmem
      rcases List.mem_append.1 hmem with hmem | hmem
      · exact absurd (by simpa using hbefore key' hmem) hnot
      · rcases List.mem_cons.1 hmem with rfl | hmem
        · exact Std.le_refl _
        · exact Std.le_of_lt ((List.pairwise_cons.1 (List.pairwise_append.1 hordered).2.1).1 _ hmem)

/-- Nothing is cut in a pass exactly if nothing is cut for any key without an escape. -/
theorem truncated_eq_nil_iff : (record.expand store options).report.truncated = [] ↔
    ∀ key raw, record.get? key = some raw → ¬['\\', '$'] <:+: raw.toList →
      (record.parsed.expansion store options key raw).Complete := by
  rw [List.eq_nil_iff_forall_not_mem]
  constructor
  · intro h key raw hget hraw
    exact (untruncated_iff_complete hget hraw).1 fun t ht => absurd ht (h t)
  · intro h t ht
    obtain ⟨raw, hget, hraw, -⟩ := mem_truncated_expand.1 ht
    exact (untruncated_iff_complete hget hraw).2 (h _ _ hget hraw) t ht rfl

/-- Nothing is cut in a pass exactly if the texts in use for the keys without escapes have
evaluations that fit into the depth. -/
theorem truncated_eq_nil_iff_evaluatesTo :
    (record.expand store options).report.truncated = [] ↔
      ∀ key raw, record.get? key = some raw → ¬['\\', '$'] <:+: raw.toList →
        ∃ e, ∃ h ≤ options.maxDepth.toNat, record.parsed.EvaluatesTo store options
          (record.parsed.selected store options key raw) e h := by
  rw [truncated_eq_nil_iff]
  refine forall₂_congr fun key raw => forall₂_congr fun hget _ => ?_
  exact Scope.complete_expand_iff fun e h hle H => Config.expansion_eq_of_evaluatesTo hget H hle

theorem run_expandStrictlyM_of_invalid {key : String} (h : record.validate = .error ⟨key⟩) :
    (record.expandStrictlyM options).run store = (.error (.invalidKey ⟨key⟩), store) := by
  rw [run_expandStrictlyM, expandStrictly, h]

theorem run_expandStrictlyM_of_valid (h : record.validate = .ok ()) :
    (record.expandStrictlyM options).run store =
      match (record.expand store options).report.truncated with
      | [] => (.ok (record.expand store options).record, (record.expand store options).store)
      | t :: _ => (.error (.ofTruncation t), store) := by
  rw [run_expandStrictlyM, expandStrictly, h]
  dsimp only
  cases (record.expand store options).report.truncated <;> rfl

/-- **Strict passes agree with lenient ones, and a refusal leaves the store alone.** A strict pass
refuses a record for the least of its names that is no key, in the order of their bytes. It refuses
other records for the first cut that a lenient pass records, which is the one at which strict
evaluation ends, and where that records none the two passes come to the same. So it succeeds exactly
if all names are keys and the texts in use for keys without escapes evaluate within the depth. -/
theorem expandStrictlyM_agrees (record : Record) (store : σ) (options : Options) :
    ((∃ key, (record.get? key).isSome ∧ ¬isKey key) →
      ∃ key, (record.get? key).isSome ∧ ¬isKey key ∧
        (∀ key', (record.get? key').isSome → ¬isKey key' →
          Bytes.ofText key ≤ Bytes.ofText key') ∧
        (record.expandStrictlyM options).run store = (.error (.invalidKey ⟨key⟩), store)) ∧
    ((∀ key, (record.get? key).isSome → isKey key) →
      (∀ t, (record.expand store options).report.truncated.head? = some t →
        record.parsed.strictValues store options = .error t ∧
        (record.expandStrictlyM options).run store = (.error (.ofTruncation t), store)) ∧
      ((record.expand store options).report.truncated = [] →
        record.parsed.strictValues store options =
          .ok (record.expand store options).record.parsed.entries ∧
        (record.expandStrictlyM options).run store =
          (.ok (record.expand store options).record, (record.expand store options).store))) ∧
    (∀ refusal, ((record.expandStrictlyM options).run store).1 = .error refusal →
      ∀ key, Store.get? ((record.expandStrictlyM options).run store).2 key =
        Store.get? store key) ∧
    ((∃ expanded, ((record.expandStrictlyM options).run store).1 = .ok expanded) ↔
      (∀ key, (record.get? key).isSome → isKey key) ∧
      ∀ key raw, record.get? key = some raw → ¬['\\', '$'] <:+: raw.toList →
        ∃ e, ∃ h ≤ options.maxDepth.toNat, record.parsed.EvaluatesTo store options
          (record.parsed.selected store options key raw) e h) := by
  rw [← truncated_eq_nil_iff_evaluatesTo, strictValues_eq]
  rcases record.validate_cases with ⟨hvalidate, hvalid⟩ | ⟨key, hvalidate, hsome, hkey, hleast⟩
  · have hnone : ¬∃ key, (record.get? key).isSome ∧ ¬isKey key :=
      fun ⟨key, hsome, hkey⟩ => hkey (hvalid key hsome)
    rw [run_expandStrictlyM_of_valid hvalidate]
    refine ⟨fun h => absurd h hnone, fun _ => ?_, ?_⟩
    · cases (record.expand store options).report.truncated with
      | nil => exact ⟨fun t ht => (nomatch ht), fun _ => ⟨rfl, rfl⟩⟩
      | cons t rest =>
        refine ⟨fun t' ht => ?_, fun h => (nomatch h)⟩
        cases ht
        exact ⟨rfl, rfl⟩
    · cases (record.expand store options).report.truncated with
      | nil => exact ⟨fun _ h => (nomatch h), fun _ => ⟨hvalid, rfl⟩, fun _ => ⟨_, rfl⟩⟩
      | cons t rest =>
        exact ⟨fun _ _ _ => rfl, fun ⟨_, h⟩ => (nomatch h), fun ⟨_, h⟩ => (nomatch h)⟩
  · have hnot : ¬∀ key, (record.get? key).isSome → isKey key :=
      fun hvalid => hkey (hvalid key hsome)
    rw [run_expandStrictlyM_of_invalid hvalidate]
    refine ⟨fun _ => ⟨key, hsome, hkey, fun key' hsome' hkey' => ?_, rfl⟩,
      fun hvalid => absurd hvalid hnot, fun _ _ _ => rfl, fun ⟨_, h⟩ => (nomatch h),
      fun ⟨hvalid, _⟩ => absurd hvalid hnot⟩
    exact Bytes.ofText_le_iff.2 (hleast key' hsome' hkey')

/-- Two cuts: the value of `B` comes before the default behind it. -/
def cutTwice : Record := .ofConfig (.ofList [("A", "${B:-$A}"), ("B", "$B")])

theorem cutTwice_refused :
    (∀ key, (cutTwice.get? key).isSome → isKey key) ∧
    (cutTwice.expand (.empty : Table String String) {}).report.truncated.head? =
      some ⟨"A", "B", .cycle ["A", "B"]⟩ ∧
    (cutTwice.expandStrictlyM {}).run (.empty : Table String String) =
      (.error (.cycle "B" ["A", "B"]), .empty) := by
  have hvalid : ∀ key, (cutTwice.get? key).isSome → isKey key := by
    intro key hkey
    have hkeys : ∀ key ∈ cutTwice.parsed.keys, isKey key := by decide
    exact hkeys key (Table.mem_keys_iff.2 hkey)
  have hfirst : (cutTwice.expand (.empty : Table String String) {}).report.truncated.head? =
      some ⟨"A", "B", .cycle ["A", "B"]⟩ := by decide +kernel
  exact ⟨hvalid, hfirst, (((expandStrictlyM_agrees cutTwice (.empty : Table String String)
    {}).2.1 hvalid).1 _ hfirst).2⟩

end Record

end VarSubst
