import VarSubst.Environment
import VarSubst.Proofs.ByteOrder
import VarSubst.Proofs.Outcome
import VarSubst.Session

/-!
# The process environment as a plain store

What an environment has under texts is a plain table (`Environment.view`). A pass over the
environment has the results that it has over this table: both look up the same. It does not write
the same, since an environment cannot hold all entries (`Environment.Updated`), and then the table
is to be read off the new environment. No write is a panic, so a process that is running with an
environment goes on with the environment that a pass or a session makes of it
(`Process.hom_running`).
-/

namespace VarSubst

namespace Environment

variable {e : Environment} {key value : String} {name bytes : Bytes}

/-! ## Entries -/

/-- What a write does to the variables, of whatever bytes their names are. -/
theorem get?_entries_set (e : Environment) (key value : String) (name : Bytes) :
    (e.set key value).entries.get? name =
      if name = .ofText key ∧ IsName key ∧ '\x00' ∉ value.toList then some (.ofText value)
      else e.entries.get? name := by
  rw [set_eq]
  by_cases hwritten : IsName key ∧ '\x00' ∉ value.toList
  · rw [if_pos hwritten, Table.get?_insert]
    simp [hwritten]
  · rw [if_neg hwritten, if_neg fun h => hwritten h.2]

/-- A text reads as another one if the bytes of the two make up a variable. -/
theorem get?_eq_some_iff : e.get? key = some value ↔
    IsName key ∧ e.entries.get? (.ofText key) = some (.ofText value) := by
  rw [get?, ← canName_iff]
  by_cases hname : canName key
  · simp only [hname, if_true, true_and, Option.bind_eq_some_iff, Bytes.text?_eq_some_iff,
      exists_eq_right]
  · simp [hname]

instance : LawfulStore Environment where
  canStore key value := canName key && canHold value
  get?_set e key key' value := by
    refine Option.ext fun text => ?_
    change (e.set key value).get? key' = some text ↔ _
    simp only [get?_eq_some_iff, get?_entries_set, Bytes.ofText_inj, Bool.and_eq_true, canName_iff,
      canHold_iff]
    split
    · next hset => simp [hset.1, hset.2.1, Bytes.ofText_inj]
    · exact get?_eq_some_iff.symm

/-! ## Well-formed environments -/

/-- The names are not empty and hold no `=` and no NUL, the values hold no NUL. -/
def WellFormed (e : Environment) : Prop :=
  ∀ name value, e.entries.get? name = some value →
    name ≠ [] ∧ equalsSign ∉ name ∧ nul ∉ name ∧ nul ∉ value

theorem WellFormed.set (H : e.WellFormed) (key value : String) : (e.set key value).WellFormed := by
  intro name bytes h
  rw [get?_entries_set] at h
  split at h
  · next hset =>
    obtain ⟨rfl, ⟨hempty, hequals, hnul⟩, hvalue⟩ := hset
    cases h
    exact ⟨mt Bytes.ofText_eq_nil_iff.1 hempty, mt equalsSign_mem_ofText_iff.1 hequals,
      mt nul_mem_ofText_iff.1 hnul, mt nul_mem_ofText_iff.1 hvalue⟩
  · exact H name bytes h

theorem WellFormed.repliesM (H : e.WellFormed) (calls : List Call) :
    ((Call.repliesM calls).run e).2.WellFormed :=
  Call.repliesM_invariant (fun _ key value H => H.set key value) H calls

/-! ## The view -/

/-- A variable as texts, if its name and its value are. -/
def entryText? (entry : Bytes × Bytes) : Option (String × String) := do
  return (← entry.1.text?, ← entry.2.text?)

theorem entryText?_eq_some_iff {entry : Bytes × Bytes} : entryText? entry = some (key, value) ↔
    entry = (.ofText key, .ofText value) := by
  obtain ⟨name, bytes⟩ := entry
  simp only [entryText?, Option.bind_eq_bind, Option.bind_eq_some_iff, Option.pure_def,
    Option.some.injEq, Prod.mk.injEq, Bytes.text?_eq_some_iff]
  constructor
  · rintro ⟨_, rfl, _, rfl, rfl, rfl⟩
    exact ⟨rfl, rfl⟩
  · rintro ⟨rfl, rfl⟩
    exact ⟨key, rfl, value, rfl, rfl, rfl⟩

/-- The variables whose names and values are texts. -/
def view (e : Environment) : Table String String where
  entries := e.entries.entries.filterMap entryText?
  ascending := by
    refine List.pairwise_filterMap.2 (e.entries.ascending.imp ?_)
    rintro _ _ hlt ⟨key, value⟩ h ⟨key', value'⟩ h'
    rw [entryText?_eq_some_iff] at h h'
    subst h h'
    exact Bytes.ofText_lt_iff.1 hlt

theorem get?_view_eq_some_iff : e.view.get? key = some value ↔
    e.entries.get? (.ofText key) = some (.ofText value) := by
  rw [← Table.mem_entries_iff, ← Table.mem_entries_iff, view, List.mem_filterMap]
  simp only [entryText?_eq_some_iff, exists_eq_right]

/-- Texts read the same in a well-formed environment and in its view. -/
theorem WellFormed.get?_view (H : e.WellFormed) (key : String) : e.view.get? key = e.get? key := by
  refine Option.ext fun value => ?_
  rw [get?_view_eq_some_iff, get?_eq_some_iff]
  refine ⟨fun h => ⟨?_, h⟩, And.right⟩
  obtain ⟨hempty, hequals, hnul, -⟩ := H _ _ h
  exact ⟨mt Bytes.ofText_eq_nil_iff.2 hempty, mt equalsSign_mem_ofText_iff.2 hequals,
    mt nul_mem_ofText_iff.2 hnul⟩

/-! ## Passes -/

/-- What a pass over `record` has made of `e` is `e'`: every key has its value in the record that is
returned, and the environment has it too if it can have the two as an entry. Nothing else has
changed, whatever bytes a name or a value consists of. -/
structure Updated (e e' : Environment) (record expanded : Record) (options : Options) : Prop where
  returned : ∀ key raw, record.get? key = some raw →
    expanded.get? key = some (record.parsed.outcome e options key raw).value
  stored : ∀ key raw, record.get? key = some raw → IsName key →
    '\x00' ∉ (record.parsed.outcome e options key raw).value.toList →
    e'.get? key = some (record.parsed.outcome e options key raw).value
  others : ∀ name : Bytes,
    (∀ key raw, record.get? key = some raw → IsName key →
      '\x00' ∉ (record.parsed.outcome e options key raw).value.toList → name ≠ .ofText key) →
    e'.entries.get? name = e.entries.get? name

theorem get?_entries_setAll {entries : List (String × String)}
    (h : ∀ entry ∈ entries, IsName entry.1 → '\x00' ∉ entry.2.toList → name ≠ .ofText entry.1) :
    (Store.setAll e entries).entries.get? name = e.entries.get? name := by
  induction entries generalizing e with
  | nil => rfl
  | cons entry entries ih =>
    have hset : (e.set entry.1 entry.2).entries.get? name = e.entries.get? name := by
      rw [get?_entries_set, if_neg]
      rintro ⟨hname, hkey, hvalue⟩
      exact h entry (.head _) hkey hvalue hname
    exact (ih fun entry' h' => h entry' (.tail _ h')).trans hset

theorem updated_expand (e : Environment) (record : Record) (options : Options) :
    e.Updated (record.expand e options).store record (record.expand e options).record options := by
  have hreturned : ∀ key raw, record.get? key = some raw →
      (record.expand e options).record.get? key =
        some (record.parsed.outcome e options key raw).value := by
    intro key raw hraw
    rw [Record.get?_expand, hraw, Option.map_some]
  refine ⟨hreturned, fun key raw hraw hname hvalue => ?_, fun name h => ?_⟩
  · have hkept : LawfulStore.canStore Environment key
        (record.parsed.outcome e options key raw).value := by
      simp [LawfulStore.canStore, canName_iff.2 hname, canHold_iff.2 hvalue]
    have hstored := Store.get?_setAll e (record.expand e options).record.parsed key
    change _ = (((record.expand e options).record.get? key).filter _).or _ at hstored
    rw [hreturned key raw hraw, Option.filter_some_pos hkept] at hstored
    exact hstored
  · refine get?_entries_setAll fun entry hentry hname hvalue => ?_
    have hget : (record.expand e options).record.get? entry.1 = some entry.2 :=
      Table.mem_entries_iff.1 hentry
    rw [Record.get?_expand, Option.map_eq_some_iff] at hget
    obtain ⟨raw, hraw, heq⟩ := hget
    exact h entry.1 raw hraw hname (heq ▸ hvalue)

end Environment

/-! ## Stores that read alike -/

section ReadAlike

variable {σ τ : Type} [Store σ] [Store τ] {store : σ} {store' : τ}
  (h : ∀ key, Store.get? store' key = Store.get? store key)

include h

namespace Config

variable (config : Config) (options : Options)

theorem lookup_eq_of_get?_eq (key : String) :
    config.lookup store' options key = config.lookup store options key := by
  have hsource (source : Source) :
      source.get? config store' key = source.get? config store key := by
    cases source with
    | config => rfl
    | environment => exact h key
  simp only [lookup, hsource]

theorem scope_eq_of_get?_eq : config.scope store' options = config.scope store options := by
  simp only [scope, lookup_eq_of_get?_eq h]

theorem interpolate_eq_of_get?_eq (text : String) :
    config.interpolate store' options text = config.interpolate store options text := by
  rw [interpolate, interpolate, scope_eq_of_get?_eq h]

theorem outcomes_eq_of_get?_eq : config.outcomes store' options = config.outcomes store options :=
  outcomes_congr fun key raw _ => by
    rw [outcome, outcome, lookup_eq_of_get?_eq h, scope_eq_of_get?_eq h]

end Config

namespace Record

variable (record : Record) (options : Options)

theorem expand_eq_of_get?_eq :
    (record.expand store' options).record = (record.expand store options).record ∧
      (record.expand store' options).report = (record.expand store options).report := by
  rw [expand, expand, Config.outcomes_eq_of_get?_eq h]
  exact ⟨rfl, rfl⟩

theorem fst_expandM_eq_of_get?_eq :
    ((record.expandM options).run store').1 = ((record.expandM options).run store).1 := by
  obtain ⟨hrecord, hreport⟩ := expand_eq_of_get?_eq h record options
  rw [run_expandM, run_expandM, hrecord, hreport]

theorem fst_expandStrictlyM_eq_of_get?_eq :
    ((record.expandStrictlyM options).run store').1 =
      ((record.expandStrictlyM options).run store).1 := by
  obtain ⟨hrecord, hreport⟩ := expand_eq_of_get?_eq h record options
  rw [run_expandStrictlyM, run_expandStrictlyM, expandStrictly, expandStrictly]
  cases record.validate with
  | error e => rfl
  | ok _ =>
    dsimp only
    rw [hreport]
    cases (record.expand store options).report.truncated with
    | nil => exact congrArg Except.ok hrecord
    | cons t _ => rfl

end Record

end ReadAlike

/-! ## Images of stores -/

/-- The image of a store reads like the store, also after a write to both. -/
structure Store.Hom {σ τ : Type} [Store σ] [Store τ] (f : σ → τ) : Prop where
  get? : ∀ store key, Store.get? (f store) key = Store.get? store key
  set : ∀ store key value, Store.set (f store) key value = f (Store.set store key value)

namespace Store.Hom

variable {σ τ : Type} [Store σ] [Store τ] {f : σ → τ} (H : Hom f) (store : σ)

include H

theorem setAll (entries : List (String × String)) :
    Store.setAll (f store) entries = f (Store.setAll store entries) :=
  List.foldl_hom f fun store entry => H.set store entry.1 entry.2

theorem store_expand (record : Record) (options : Options) :
    (record.expand (f store) options).store = f (record.expand store options).store := by
  rw [Record.expand, Record.expand, Config.outcomes_eq_of_get?_eq (H.get? store)]
  exact H.setAll store _

theorem run_expandStrictlyM (record : Record) (options : Options) :
    (record.expandStrictlyM options).run (f store) =
      Prod.map id f ((record.expandStrictlyM options).run store) := by
  have hreply := Record.fst_expandStrictlyM_eq_of_get?_eq (H.get? store) record options
  refine Prod.ext hreply ?_
  -- the replies are the same, so that it is refused over both or over neither
  rcases record.run_expandStrictlyM_cases options (f store) with ⟨refusal, hrun⟩ | hrun <;>
    rcases record.run_expandStrictlyM_cases options store with ⟨refusal', hrun'⟩ | hrun'
  · rw [hrun, hrun']
    rfl
  · rw [hrun, hrun'] at hreply
    cases hreply
  · rw [hrun, hrun'] at hreply
    cases hreply
  · rw [hrun, hrun']
    exact H.store_expand store record options

/-- A call is answered from the image as from the store, and the image of what the store becomes is
what the image becomes. -/
theorem run_replyM (call : Call) :
    call.replyM.run (f store) = Prod.map id f (call.replyM.run store) := by
  cases call with
  | read key =>
    change (Reply.value (Store.get? (f store) key), f store) = _
    rw [H.get?]
    rfl
  | write key value =>
    change (Reply.done, Store.set (f store) key value) = _
    rw [H.set]
    rfl
  | interpolate config options text =>
    change (Reply.text (config.interpolate (f store) options text), f store) = _
    rw [Config.interpolate_eq_of_get?_eq (H.get? store)]
    rfl
  | expand record options =>
    obtain ⟨hrecord, -⟩ := Record.expand_eq_of_get?_eq (H.get? store) record options
    rw [Call.run_replyM_expand, Call.run_replyM_expand, hrecord, H.store_expand]
    rfl
  | expandWithReport record options =>
    obtain ⟨hrecord, hreport⟩ := Record.expand_eq_of_get?_eq (H.get? store) record options
    rw [Call.run_replyM_expandWithReport, Call.run_replyM_expandWithReport, hrecord, hreport,
      H.store_expand]
    rfl
  | expandStrictly record options =>
    rw [Call.replyM, Call.replyM, StateT.run_bind, StateT.run_bind, H.run_expandStrictlyM]
    rcases (record.expandStrictlyM options).run store with ⟨_ | _, store'⟩ <;> rfl

theorem run_repliesM (calls : List Call) :
    (Call.repliesM calls).run (f store) = Prod.map id f ((Call.repliesM calls).run store) := by
  induction calls generalizing store with
  | nil => rfl
  | cons call calls ih =>
    rw [Call.run_repliesM_cons, Call.run_repliesM_cons, H.run_replyM]
    rcases call.replyM.run store with ⟨reply, store'⟩
    dsimp only [Prod.map_apply]
    rw [ih]
    rfl

end Store.Hom

/-! ## Processes -/

namespace Process

/-- A process with an environment never panics: it runs on with what becomes of the environment. -/
theorem hom_running : Store.Hom running where
  get? _ _ := rfl
  set := set_running

/-- A panic would be seen in the end, whatever calls are made after it. -/
theorem repliesM_panicked (calls : List Call) :
    ((Call.repliesM calls).run panicked).2 = panicked :=
  Call.repliesM_invariant (P := (· = panicked)) (fun _ _ _ h => by rw [h]; rfl) rfl calls

end Process

/-! ## Refinement -/

namespace Environment

variable {e : Environment}

/-- **The process environment refines a plain store.** Over a well-formed environment a pass has the
record, the report or the refusal that it has over the plain table of its texts. If it succeeds,
every key of the record that can name a variable reads as its value if that can be held, and all
other variables are as they were; if it is refused, all are. Whatever calls are made, an environment
stays well-formed, and a process that runs with it runs on: no assignment is tried that panics. -/
theorem WellFormed.refines_view (H : e.WellFormed) (record : Record) (options : Options) :
    ((record.expandM options).run e).1 = ((record.expandM options).run e.view).1 ∧
    ((record.expandStrictlyM options).run e).1 =
      ((record.expandStrictlyM options).run e.view).1 ∧
    e.Updated ((record.expandM options).run e).2 record ((record.expandM options).run e).1.1
      options ∧
    (∀ expanded, ((record.expandStrictlyM options).run e).1 = .ok expanded →
      e.Updated ((record.expandStrictlyM options).run e).2 record expanded options) ∧
    (∀ refusal, ((record.expandStrictlyM options).run e).1 = .error refusal →
      ((record.expandStrictlyM options).run e).2 = e) ∧
    ∀ calls : List Call, ((Call.repliesM calls).run e).2.WellFormed ∧
      (Call.repliesM calls).run (Process.running e) =
        (((Call.repliesM calls).run e).1, .running ((Call.repliesM calls).run e).2) := by
  have hread (key : String) : Store.get? e key = Store.get? e.view key := (H.get?_view key).symm
  refine ⟨Record.fst_expandM_eq_of_get?_eq hread record options,
    Record.fst_expandStrictlyM_eq_of_get?_eq hread record options, ?_, ?_, ?_, fun calls => ?_⟩
  · rw [Record.run_expandM]
    exact updated_expand e record options
  · intro expanded hok
    rcases record.run_expandStrictlyM_cases options e with ⟨refusal, hrun⟩ | hrun
    · rw [hrun] at hok
      cases hok
    · rw [hrun] at hok ⊢
      cases hok
      exact updated_expand e record options
  · intro refusal herror
    rcases record.run_expandStrictlyM_cases options e with ⟨refusal', hrun⟩ | hrun
    · rw [hrun]
    · rw [hrun] at herror
      cases herror
  · exact ⟨H.repliesM calls, Process.hom_running.run_repliesM e calls⟩

/-- Under `A` there is no text, under `B` there is. -/
def rawBytes : Environment := ((empty.setVariable? [0x41] [0xFF]).get rfl).set "B" "b"

/-- An entry that an environment can hold, one with a name and one with a value that it cannot. -/
def unwritable : Record := .ofConfig (.ofList [("A", "$B"), ("A=", "$A"), ("N", "\x00")])

/-- `A` now reads as its value, which is also returned for `A=`, and nothing is there under `N`. The
process has not panicked over the two. -/
theorem rawBytes_refines_view : rawBytes.WellFormed ∧
    ((unwritable.expandM {}).run rawBytes).1 = ((unwritable.expandM {}).run rawBytes.view).1 ∧
    rawBytes.get? "A" = none ∧ ((unwritable.expandM {}).run rawBytes).2.get? "A" = some "b" ∧
    ((unwritable.expandM {}).run rawBytes).1.1.get? "A=" = some "b" ∧
    ((unwritable.expandM {}).run rawBytes).2.entries.get? [0x4E] = none ∧
    ((Call.repliesM [.write "A=" "a", .expand unwritable {}]).run (.running rawBytes)).2 ≠
      Process.panicked := by
  have hwell : rawBytes.WellFormed := by
    have hentries : ∀ entry ∈ rawBytes.entries.entries,
        entry.1 ≠ [] ∧ equalsSign ∉ entry.1 ∧ nul ∉ entry.1 ∧ nul ∉ entry.2 := by decide
    exact fun name value h => hentries (name, value) (Table.mem_entries_iff.2 h)
  obtain ⟨hresult, -, hupdated, -, -, hruns⟩ := hwell.refines_view unwritable {}
  obtain ⟨-, hrunning⟩ := hruns [.write "A=" "a", .expand unwritable {}]
  refine ⟨hwell, hresult, by decide, ?_, ?_, ?_, ?_⟩
  · exact hupdated.stored "A" "$B" (by decide) (by decide) (by decide)
  · exact hupdated.returned "A=" "$A" (by decide)
  · have hothers : ∀ entry ∈ unwritable.parsed.entries, IsName entry.1 →
        '\x00' ∉ (unwritable.parsed.outcome rawBytes {} entry.1 entry.2).value.toList →
        [0x4E] ≠ Bytes.ofText entry.1 := by decide
    exact hupdated.others [0x4E] fun key raw hget =>
      hothers (key, raw) (Table.mem_entries_iff.2 hget)
  · rw [hrunning]
    exact nofun

end Environment

end VarSubst
