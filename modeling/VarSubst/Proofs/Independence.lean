import VarSubst.Proofs.Locality
import VarSubst.Session

/-!
# Passes that commute

A pass over a plain store gives a result and writes a table of values (`Writes`). Two actions on a
store commute if neither has another result, or writes something else, once the other has written,
and if they write to different keys (`Writes.comm`). Passes over records that lead to no key of one
another are of this kind (`Record.expandM_comm`): what one of them writes is under no key that the
other reads.
-/

namespace VarSubst

/-- On the given store an action gives `result` and writes `values`. -/
def Writes {α : Type} (action : StateM (Table String String) α) (store : Table String String)
    (result : α) (values : Config) : Prop :=
  action.run store = (result, Store.setAll store values.entries)

/-- No key has a value in both tables. -/
def Table.Disjoint {α β : Type} (s : Table String α) (t : Table String β) : Prop :=
  ∀ key, s.get? key = none ∨ t.get? key = none

/-- Writes to different keys can be exchanged. -/
theorem Store.setAll_comm {store values values' : Table String String}
    (h : values.Disjoint values') :
    Store.setAll (Store.setAll store values.entries) values'.entries =
      Store.setAll (Store.setAll store values'.entries) values.entries := by
  apply Table.ext_get?
  intro key
  rw [get?_setAll_entries, get?_setAll_entries, get?_setAll_entries, get?_setAll_entries]
  rcases h key with hnone | hnone <;> simp [hnone]

/-- Actions commute if they write to different keys and do not notice what the other one writes. -/
theorem Writes.comm {α β : Type} {a : StateM (Table String String) α}
    {b : StateM (Table String String) β} {store : Table String String} {x : α} {y : β}
    {values values' : Config} (hdisjoint : values.Disjoint values')
    (ha : Writes a store x values) (hb : Writes b store y values')
    (ha' : Writes a (Store.setAll store values'.entries) x values)
    (hb' : Writes b (Store.setAll store values.entries) y values') :
    (do let r ← a; let r' ← b; return (r, r')).run store =
      (do let r' ← b; let r ← a; return (r, r')).run store := by
  rw [Writes] at ha hb ha' hb'
  rw [StateT.run_bind, ha, StateT.run_bind, hb]
  change (b >>= _).run _ = (a >>= _).run _
  rw [StateT.run_bind, hb', StateT.run_bind, ha', Store.setAll_comm hdisjoint]
  rfl

namespace Record

/-- The keys of a record lead to no key of the other one; in particular, the two share none. -/
def ClearOf (record : Record) (store : Table String String) (options : Options)
    (other : Record) : Prop :=
  ∀ key j, (record.get? key).isSome → record.parsed.Reaches store options key j →
    other.get? j = none

/-- The values that a strict pass writes: none if it refuses the record. -/
def strictlyWritten (record : Record) (store : Table String String) (options : Options) : Config :=
  match record.expandStrictly store options with
  | .ok (expanded, _) => expanded.parsed
  | .error _ => .empty

variable {record other : Record} {options : Options} {store store' : Table String String}

/-! ## What passes write -/

theorem get?_expand_eq_none {key : String} (h : record.get? key = none) :
    (record.expand store options).record.get? key = none := by
  rw [get?_expand, h]
  rfl

theorem get?_strictlyWritten_eq_none {key : String} (h : record.get? key = none) :
    (record.strictlyWritten store options).get? key = none := by
  unfold strictlyWritten expandStrictly
  cases record.validate with
  | error e => rfl
  | ok _ =>
    dsimp only
    cases (record.expand store options).report.truncated with
    | nil => exact get?_expand_eq_none h
    | cons t rest => rfl

/-- A lenient pass has the same result and writes the same on stores that give the same outcomes. -/
theorem writes_expandM
    (h : record.parsed.outcomes store' options = record.parsed.outcomes store options) :
    Writes (record.expandM options) store'
      ((record.expand store options).record, (record.expand store options).report)
      (record.expand store options).record.parsed := by
  rw [Writes, run_expandM, expand, h]
  rfl

/-- So does a strict pass. -/
theorem writes_expandStrictlyM
    (h : record.parsed.outcomes store' options = record.parsed.outcomes store options) :
    Writes (record.expandStrictlyM options) store' ((record.expandStrictly store options).map (·.1))
      (record.strictlyWritten store options) := by
  have hexpand : record.expand store' options =
      { record.expand store options with
        store := Store.setAll store' (record.expand store options).record.parsed.entries } := by
    rw [expand, expand, h]
  rw [Writes, run_expandStrictlyM, strictlyWritten, expandStrictly, expandStrictly, hexpand]
  cases record.validate with
  | error e => rfl
  | ok _ =>
    dsimp only
    cases (record.expand store options).report.truncated <;> rfl

/-! ## What passes do not notice -/

/-- A record is clear of another one if its keys are among some that the texts do not lead out of
and that the other one does not have. -/
theorem ClearOf.of_closed (keys : List String) (hkeys : ∀ key ∈ record.parsed.keys, key ∈ keys)
    (hclosed : ∀ k ∈ keys, ∀ k',
      RefersTo (record.parsed.scope store options).value? k k' → k' ∈ keys)
    (hfree : ∀ k ∈ keys, other.get? k = none) : record.ClearOf store options other :=
  fun key j hkey hj =>
    hfree j (hj.mem_of_closed (hkeys key (Table.mem_keys_iff.2 hkey)) hclosed)

/-- A pass does not notice entries of the store under keys of a record that it is clear of. -/
theorem ClearOf.outcomes_setAll {values : Config} (H : record.ClearOf store options other)
    (hvalues : ∀ key, other.get? key = none → values.get? key = none) :
    record.parsed.outcomes (Store.setAll store values.entries) options =
      record.parsed.outcomes store options := by
  refine Config.outcomes_congr fun key raw hget => ?_
  refine Config.outcome_eq_of_sameOrBlank hget hget fun j hj source => .inl ?_
  cases source with
  | config => rfl
  | environment =>
    have hnone := hvalues j (H key j (Option.isSome_of_eq_some hget) hj)
    have hj := Store.get?_setAll_entries store values j
    rwa [hnone, Option.none_or] at hj

/-- Two records clear of one another write to different keys. -/
theorem ClearOf.disjoint {values values' : Config} (H : record.ClearOf store options other)
    (hvalues : ∀ key, record.get? key = none → values.get? key = none)
    (hvalues' : ∀ key, other.get? key = none → values'.get? key = none) :
    values.Disjoint values' := by
  intro key
  cases hget : record.get? key with
  | none => exact .inl (hvalues key hget)
  | some raw => exact .inr (hvalues' key (H key key (Option.isSome_of_eq_some hget) .refl))

/-- Actions that write under the keys of two records clear of one another, and hang on the outcomes
for these keys only, commute. -/
theorem ClearOf.comm {α β : Type} {options' : Options} {a : StateM (Table String String) α}
    {b : StateM (Table String String) β} {x : α} {y : β} {values values' : Config}
    (H : record.ClearOf store options other) (H' : other.ClearOf store options' record)
    (ha : ∀ {s}, record.parsed.outcomes s options = record.parsed.outcomes store options →
      Writes a s x values)
    (hb : ∀ {s}, other.parsed.outcomes s options' = other.parsed.outcomes store options' →
      Writes b s y values')
    (hvalues : ∀ key, record.get? key = none → values.get? key = none)
    (hvalues' : ∀ key, other.get? key = none → values'.get? key = none) :
    (do let r ← a; let r' ← b; return (r, r')).run store =
      (do let r' ← b; let r ← a; return (r, r')).run store :=
  Writes.comm (H.disjoint hvalues hvalues') (ha rfl) (hb rfl) (ha (H.outcomes_setAll hvalues'))
    (hb (H'.outcomes_setAll hvalues))

/-- **Independent passes commute.** If the keys of two records lead to no keys of one another, it
does not matter which of them is expanded first over a plain store: records, reports and the store
in the end are the same, and so are the refusals of strict passes. -/
theorem expandM_comm (store : Table String String) (record other : Record)
    (options options' : Options) (H : record.ClearOf store options other)
    (H' : other.ClearOf store options' record) :
    (do
      let a ← record.expandM options
      let b ← other.expandM options'
      return (a, b)).run store =
      (do
        let b ← other.expandM options'
        let a ← record.expandM options
        return (a, b)).run store ∧
    (do
      let a ← record.expandStrictlyM options
      let b ← other.expandStrictlyM options'
      return (a, b)).run store =
      (do
        let b ← other.expandStrictlyM options'
        let a ← record.expandStrictlyM options
        return (a, b)).run store :=
  ⟨H.comm H' writes_expandM writes_expandM (fun _ => get?_expand_eq_none)
    (fun _ => get?_expand_eq_none),
   H.comm H' writes_expandStrictlyM writes_expandStrictlyM
    (fun _ => get?_strictlyWritten_eq_none) (fun _ => get?_strictlyWritten_eq_none)⟩

/-- A key whose text leads to a key of the store. -/
def storeReader : Record := .ofConfig (.ofList [("A", "$S")])

/-- Another one, whose text leads to itself first. -/
def cyclicReader : Record := .ofConfig (.ofList [("B", "$B$S")])

/-- The store that both are expanded over. -/
def readStore : Table String String := .ofList [("S", "s")]

theorem storeReader_clearOf : storeReader.ClearOf readStore {} cyclicReader := by
  refine .of_closed ["A", "S"] (by decide) ?_ (by decide)
  rintro k hk _ ⟨value, r, hv, hr, rfl⟩
  have hvalues : ∀ k ∈ ["A", "S"], ∀ value ∈ (storeReader.parsed.scope readStore {}).value? k,
      value = "$S" ∨ value = "s" := by decide
  have hA : Template.ofText "$S" = [.reference ⟨"S", .bare⟩] := by decide
  have hS : Template.ofText "s" = [.literal 's'] := by decide
  rw [Reference.occurs_iff] at hr
  rcases hvalues k hk value hv with rfl | rfl <;> simp_all [Reference.default?]

theorem cyclicReader_clearOf : cyclicReader.ClearOf readStore {} storeReader := by
  refine .of_closed ["B", "S"] (by decide) ?_ (by decide)
  rintro k hk _ ⟨value, r, hv, hr, rfl⟩
  have hvalues : ∀ k ∈ ["B", "S"], ∀ value ∈ (cyclicReader.parsed.scope readStore {}).value? k,
      value = "$B$S" ∨ value = "s" := by decide
  have hB : Template.ofText "$B$S" = [.reference ⟨"B", .bare⟩, .reference ⟨"S", .bare⟩] := by
    decide
  have hS : Template.ofText "s" = [.literal 's'] := by decide
  rw [Reference.occurs_iff] at hr
  rcases hvalues k hk value hv with rfl | rfl
  · simp_all [Reference.default?]
    rcases hr with rfl | rfl <;> simp
  · simp_all

/-- One of them is expanded and the other one refused, in either order. -/
theorem readers_comm :
    (do
      let a ← storeReader.expandStrictlyM {}
      let b ← cyclicReader.expandStrictlyM {}
      return (a, b)).run readStore =
      (do
        let b ← cyclicReader.expandStrictlyM {}
        let a ← storeReader.expandStrictlyM {}
        return (a, b)).run readStore :=
  (expandM_comm readStore storeReader cyclicReader {} {} storeReader_clearOf cyclicReader_clearOf).2

end Record

end VarSubst
