import VarSubst.Table

/-!
# Stores

A store is what references are looked up in besides the configuration, and what expanded values are
written to. A plain table is one; the process environment is another.
-/

namespace VarSubst

class Store (σ : Type) where
  get? : σ → String → Option String
  /-- Stores a value under a key, in place of any older one, where the store can hold it. -/
  set : σ → String → String → σ

instance : Store (Table String String) where
  get? := Table.get?
  set := Table.insert

namespace Store

/-- Writes entries one after the other. -/
def setAll {σ : Type} [Store σ] (store : σ) (entries : List (String × String)) : σ :=
  entries.foldl (fun s e => set s e.1 e.2) store

/-- What every write keeps, any number of them keep. -/
theorem setAll_invariant {σ : Type} [Store σ] {P : σ → Prop}
    (hset : ∀ store key value, P store → P (set store key value)) {store : σ} (h : P store)
    (entries : List (String × String)) : P (setAll store entries) := by
  induction entries generalizing store with
  | nil => exact h
  | cons entry entries ih => exact ih (hset store entry.1 entry.2 h)

end Store

/-- A store in which a write changes nothing but what is under its key, and not even this where the
store cannot hold the entry. -/
class LawfulStore (σ : Type) [Store σ] where
  canStore : String → String → Bool
  get?_set (store : σ) (key key' value : String) :
    Store.get? (Store.set store key value) key' =
      if key' = key ∧ canStore key value then some value else Store.get? store key'

instance : LawfulStore (Table String String) where
  canStore _ _ := true
  get?_set t key key' value := by
    simp only [and_true]
    exact t.get?_insert key key' value

namespace Store

/-- What is in a store after the entries of a table were written to it. -/
theorem get?_setAll {σ : Type} [Store σ] [LawfulStore σ] (store : σ)
    (values : Table String String) (key : String) :
    get? (setAll store values.entries) key =
      ((values.get? key).filter (LawfulStore.canStore σ key)).or (get? store key) := by
  rw [← Option.bind_guard]
  refine values.foldl_entries key (get? · key) _ (fun s e => ?_) store
  rw [LawfulStore.get?_set]
  by_cases hk : key = e.1
  · by_cases hc : LawfulStore.canStore σ key e.2 <;> simp [Option.guard, ← hk, hc]
  · simp [hk]

theorem get?_setAll_entries (store values : Table String String) (key : String) :
    (setAll store values.entries).get? key = (values.get? key).or (store.get? key) := by
  have h := get?_setAll store values key
  have hall : (values.get? key).filter (fun _ => true) = values.get? key := by
    cases values.get? key <;> rfl
  rwa [← hall]

end Store

end VarSubst
