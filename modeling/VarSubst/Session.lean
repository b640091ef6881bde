import VarSubst.Pass

/-!
# Passes over a store that changes

A session works on one store: a pass reads what earlier passes have left in it and writes its own
values there, entry by entry. A pass that refuses its record ends there and then, and the store is
left as it is at that point.
-/

namespace VarSubst

variable {σ : Type} [Store σ]

namespace Store

/-- Writes the values of a configuration, in order of their keys. -/
def writeM (values : Config) : StateM σ Unit :=
  values.entries.forM fun e => modify fun store => Store.set store e.1 e.2

theorem run_writeM (values : Config) (store : σ) :
    (writeM values).run store = ((), setAll store values.entries) := by
  have key : ∀ (entries : List (String × String)) (store : σ),
      (entries.forM fun e => modify fun store => Store.set store e.1 e.2 :
        StateM σ Unit).run store = ((), setAll store entries) := by
    intro entries
    induction entries with
    | nil => intro store; rfl
    | cons e entries ih => intro store; exact ih _
  exact key values.entries store

end Store

namespace Record

/-- Replaces the values of a record by the outcomes for its keys and writes them to the store. -/
def commitM (record : Record) (outcomes : Table String Outcome) : StateM σ Record := do
  let parsed := outcomes.map fun _ o => o.value
  Store.writeM parsed
  return { record with parsed }

/-- Expands a record in a session. -/
def expandM (record : Record) (options : Options) : StateM σ (Record × Report) := do
  let outcomes := record.parsed.outcomes (← get) options
  return (← record.commitM outcomes, .ofOutcomes outcomes.entries)

/-- Expands a record in a session, or refuses it and writes nothing from there on. -/
def expandStrictlyM (record : Record) (options : Options) : StateM σ (Except Refusal Record) := do
  match record.validate with
  | .error e => return .error (.invalidKey e)
  | .ok () =>
    let outcomes := record.parsed.outcomes (← get) options
    match (Report.ofOutcomes outcomes.entries).truncated with
    | [] => return .ok (← record.commitM outcomes)
    | t :: _ => return .error (.ofTruncation t)

variable (record : Record) (options : Options) (store : σ)

theorem run_commitM : (record.commitM (record.parsed.outcomes store options)).run store =
    ((record.expand store options).record, (record.expand store options).store) := by
  rw [commitM, StateT.run_bind, Store.run_writeM]
  rfl

theorem run_expandM : (record.expandM options).run store =
    (((record.expand store options).record, (record.expand store options).report),
      (record.expand store options).store) := by
  rw [expandM, StateT.run_bind]
  change (record.commitM (record.parsed.outcomes store options) >>= _).run store = _
  rw [StateT.run_bind, run_commitM]
  rfl

/-- A session goes on with the store of the pass or, after a refusal, with the one it had. -/
theorem run_expandStrictlyM : (record.expandStrictlyM options).run store =
    match record.expandStrictly store options with
    | .ok (record, store) => (.ok record, store)
    | .error refusal => (.error refusal, store) := by
  have htruncated : (Report.ofOutcomes (record.parsed.outcomes store options).entries).truncated =
    (record.expand store options).report.truncated := rfl
  rw [expandStrictly, expandStrictlyM]
  cases record.validate with
  | error e => rfl
  | ok _ =>
    dsimp only
    rw [StateT.run_bind, StateT.run_get, pure_bind]
    dsimp only
    rw [htruncated]
    cases (record.expand store options).report.truncated with
    | cons t _ => rfl
    | nil =>
      dsimp only
      rw [StateT.run_bind, run_commitM]
      rfl

/-- A strict pass is refused and leaves the store as it was, or it comes to what a lenient one does. -/
theorem run_expandStrictlyM_cases :
    (∃ refusal, (record.expandStrictlyM options).run store = (.error refusal, store)) ∨
      (record.expandStrictlyM options).run store =
        (.ok (record.expand store options).record, (record.expand store options).store) := by
  rw [run_expandStrictlyM, expandStrictly]
  cases record.validate with
  | error e => exact .inl ⟨_, rfl⟩
  | ok _ =>
    dsimp only
    cases (record.expand store options).report.truncated with
    | nil => exact .inr rfl
    | cons t _ => exact .inl ⟨_, rfl⟩

end Record

/-! ## Calls -/

/-- What a session can be asked for. -/
inductive Call where
  | read (key : String)
  | write (key value : String)
  | interpolate (config : Config) (options : Options) (text : String)
  | expand (record : Record) (options : Options)
  | expandWithReport (record : Record) (options : Options)
  | expandStrictly (record : Record) (options : Options)

inductive Reply where
  | done
  | value (value? : Option String)
  | text (text : String)
  | record (record : Record)
  | reported (record : Record) (report : Report)
  | refused (refusal : Refusal)

namespace Call

def replyM : Call → StateM σ Reply
  | .read key => return .value (Store.get? (← get) key)
  | .write key value => do
    modify fun store => Store.set store key value
    return .done
  | .interpolate config options text => return .text (config.interpolate (← get) options text)
  | .expand record options => return .record (← record.expandM options).1
  | .expandWithReport record options => do
    let (record, report) ← record.expandM options
    return .reported record report
  | .expandStrictly record options => do
    match ← record.expandStrictlyM options with
    | .ok record => return .record record
    | .error refusal => return .refused refusal

section

variable (record : Record) (options : Options) (store : σ)

theorem run_replyM_expand : (replyM (.expand record options)).run store =
    (.record (record.expand store options).record, (record.expand store options).store) := by
  rw [replyM, StateT.run_bind, Record.run_expandM]
  rfl

theorem run_replyM_expandWithReport : (replyM (.expandWithReport record options)).run store =
    (.reported (record.expand store options).record (record.expand store options).report,
      (record.expand store options).store) := by
  rw [replyM, StateT.run_bind, Record.run_expandM]
  rfl

/-- A strict pass is answered by a refusal and leaves the store as it was, or it is answered like a
lenient one. -/
theorem run_replyM_expandStrictly_cases :
    (∃ refusal, (replyM (.expandStrictly record options)).run store = (.refused refusal, store)) ∨
      (replyM (.expandStrictly record options)).run store =
        (.record (record.expand store options).record, (record.expand store options).store) := by
  rw [replyM, StateT.run_bind]
  rcases record.run_expandStrictlyM_cases options store with ⟨refusal, hrun⟩ | hrun
  · rw [hrun]
    exact .inl ⟨refusal, rfl⟩
  · rw [hrun]
    exact .inr rfl

end

/-- Answers calls one after the other. -/
def repliesM (calls : List Call) : StateM σ (List Reply) := calls.mapM replyM

variable (store : σ)

theorem run_repliesM_cons (call : Call) (calls : List Call) :
    (repliesM (call :: calls)).run store =
      let (reply, store) := call.replyM.run store
      let (replies, store) := (repliesM calls).run store
      (reply :: replies, store) := by
  rw [repliesM, List.mapM_cons]
  rfl

/-! ### Invariants -/

section Invariant

variable {P : σ → Prop} {store : σ}
  (hset : ∀ store key value, P store → P (Store.set store key value))

include hset

/-- What every write keeps, every call keeps. -/
theorem replyM_invariant (h : P store) (call : Call) : P (call.replyM.run store).2 := by
  cases call with
  | read | interpolate => exact h
  | write key value => exact hset store key value h
  | expand record options =>
    rw [run_replyM_expand]
    exact Store.setAll_invariant hset h _
  | expandWithReport record options =>
    rw [run_replyM_expandWithReport]
    exact Store.setAll_invariant hset h _
  | expandStrictly record options =>
    rcases run_replyM_expandStrictly_cases record options store with ⟨refusal, hrun⟩ | hrun
    · rw [hrun]
      exact h
    · rw [hrun]
      exact Store.setAll_invariant hset h _

/-- So does any number of calls. -/
theorem repliesM_invariant (h : P store) (calls : List Call) :
    P ((repliesM calls).run store).2 := by
  induction calls generalizing store with
  | nil => exact h
  | cons call calls ih =>
    rw [run_repliesM_cons]
    exact ih (replyM_invariant hset h call)

end Invariant

end Call

end VarSubst
