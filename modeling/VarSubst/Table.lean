/-!
# Finite tables

A table maps keys to values and keeps its entries in strictly ascending key order. Order and absence
of repeats belong to the type, so two tables with the same look-ups are equal (`Table.ext_get?`).
-/

namespace VarSubst

/-- A finite map from `κ` to `α`, listed in strictly ascending key order. -/
structure Table (κ α : Type) [LT κ] where
  entries : List (κ × α)
  ascending : entries.Pairwise (fun a b => a.1 < b.1)

namespace Table

/-! ## Lists of entries -/

section Entries

variable {κ α β : Type} [DecidableEq κ]

/-- The value listed first under `key`. -/
def find? (key : κ) : List (κ × α) → Option α
  | [] => none
  | (k, a) :: rest => if key = k then some a else find? key rest

theorem find?_eq_none {key : κ} {l : List (κ × α)} (h : ∀ e ∈ l, e.1 ≠ key) :
    find? key l = none := by
  induction l with
  | nil => rfl
  | cons e l ih =>
    have he : key ≠ e.1 := fun h' => h e (.head _) h'.symm
    simpa [find?, he] using ih fun e' he' => h e' (.tail _ he')

theorem mem_of_find? {key : κ} {a : α} {l : List (κ × α)} (h : find? key l = some a) :
    (key, a) ∈ l := by
  induction l with
  | nil => cases h
  | cons e l ih =>
    obtain ⟨k, b⟩ := e
    by_cases hk : key = k
    · simp [find?, hk] at h
      simp [h, hk]
    · simp [find?, hk] at h
      exact .tail _ (ih h)

theorem find?_append (key : κ) (l l' : List (κ × α)) :
    find? key (l ++ l') = (find? key l).or (find? key l') := by
  induction l with
  | nil => rfl
  | cons e l ih =>
    rw [List.cons_append, find?, find?, ih]
    split <;> rfl

theorem find?_map {key : κ} (f : κ → α → β) (l : List (κ × α)) :
    find? key (l.map fun (k, a) => (k, f k a)) = (find? key l).map (f key) := by
  induction l with
  | nil => rfl
  | cons e l ih =>
    by_cases h : key = e.1
    · simp [find?, h]
    · simp [find?, h, ih]

variable [LT κ] [DecidableLT κ]

/-- Puts an entry at its place in an ascending list; an entry with the same key is replaced. -/
def insertEntry (key : κ) (value : α) : List (κ × α) → List (κ × α)
  | [] => [(key, value)]
  | (k, a) :: rest =>
    if key < k then (key, value) :: (k, a) :: rest
    else if key = k then (key, value) :: rest
    else (k, a) :: insertEntry key value rest

theorem mem_insertEntry {key : κ} {value : α} {l : List (κ × α)} {e : κ × α}
    (h : e ∈ insertEntry key value l) : e = (key, value) ∨ e ∈ l := by
  induction l with
  | nil => simpa [insertEntry] using h
  | cons e' l ih =>
    rw [insertEntry] at h
    split at h
    · simpa using h
    · split at h <;> grind

theorem find?_insertEntry (key key' : κ) (value : α) (l : List (κ × α)) :
    find? key' (insertEntry key value l) = if key' = key then some value else find? key' l := by
  induction l with
  | nil => simp [insertEntry, find?]
  | cons e l ih =>
    obtain ⟨k, a⟩ := e
    rw [insertEntry]
    split
    · simp [find?]
    · split
      · next heq => subst heq; by_cases h : key' = key <;> simp [find?, h]
      · next hne =>
        by_cases h : key' = k
        · subst h; simp [find?, Ne.symm hne]
        · simp [find?, h, ih]

end Entries

section Order

variable {κ α : Type} [LT κ] [LE κ] [Std.IsLinearOrder κ] [Std.LawfulOrderLT κ]

theorem lt_of_not_lt_of_ne {a b : κ} (h : ¬a < b) (hne : a ≠ b) : b < a :=
  Std.lt_of_le_of_ne (Std.not_lt.1 h) (Ne.symm hne)

theorem ascending_insertEntry [DecidableEq κ] [DecidableLT κ] {key : κ} {value : α}
    {l : List (κ × α)} (h : l.Pairwise (fun a b => a.1 < b.1)) :
    (insertEntry key value l).Pairwise (fun a b => a.1 < b.1) := by
  induction l with
  | nil => simp [insertEntry]
  | cons e l ih =>
    obtain ⟨k, a⟩ := e
    have hl := List.pairwise_cons.1 h
    rw [insertEntry]
    split
    · next hlt =>
      refine List.pairwise_cons.2 ⟨fun e he => ?_, h⟩
      cases he with
      | head => exact hlt
      | tail _ he => exact Std.lt_trans hlt (hl.1 e he)
    · next hlt =>
      split
      · next heq => subst heq; exact List.pairwise_cons.2 ⟨hl.1, hl.2⟩
      · next hne =>
        refine List.pairwise_cons.2 ⟨fun e he => ?_, ih hl.2⟩
        cases mem_insertEntry he with
        | inl he => subst he; exact lt_of_not_lt_of_ne hlt hne
        | inr he => exact hl.1 e he

end Order

/-! ## Operations -/

section Basic

variable {κ α β : Type} [LT κ]

@[ext] theorem ext {s t : Table κ α} (h : s.entries = t.entries) : s = t := by
  cases s; cases t; cases h; rfl

instance [DecidableEq κ] [DecidableEq α] : DecidableEq (Table κ α) := fun s t =>
  decidable_of_iff (s.entries = t.entries) ⟨ext, fun h => h ▸ rfl⟩

/-- The table without entries. -/
def empty : Table κ α := ⟨[], .nil⟩

instance : Inhabited (Table κ α) := ⟨empty⟩

/-- The keys, in ascending order. -/
def keys (t : Table κ α) : List κ := t.entries.map (·.1)

def size (t : Table κ α) : Nat := t.entries.length

def isEmpty (t : Table κ α) : Bool := t.entries.isEmpty

/-- Rewrites every value in the light of its key; the keys stay. -/
def map (f : κ → α → β) (t : Table κ α) : Table κ β where
  entries := t.entries.map fun (k, a) => (k, f k a)
  ascending := List.pairwise_map.2 t.ascending

@[simp] theorem keys_map (f : κ → α → β) (t : Table κ α) : (t.map f).keys = t.keys := by
  simp [keys, map, Function.comp_def]

variable [DecidableEq κ]

def get? (t : Table κ α) (key : κ) : Option α := find? key t.entries

@[simp] theorem get?_empty (key : κ) : (empty : Table κ α).get? key = none := rfl

@[simp] theorem get?_map (f : κ → α → β) (t : Table κ α) (key : κ) :
    (t.map f).get? key = (t.get? key).map (f key) := find?_map f t.entries

end Basic

section Lawful

variable {κ α : Type} [LT κ] [LE κ] [Std.LawfulOrderLT κ]

theorem nodup_entries (t : Table κ α) : t.entries.Nodup := by
  refine t.ascending.imp ?_
  rintro a _ hlt rfl
  exact Std.lt_irrefl hlt

theorem get?_of_mem [DecidableEq κ] {t : Table κ α} {key : κ} {a : α}
    (h : (key, a) ∈ t.entries) : t.get? key = some a := by
  obtain ⟨l, hl⟩ := t
  induction l with
  | nil => cases h
  | cons e l ih =>
    obtain ⟨hlt, hl⟩ := List.pairwise_cons.1 hl
    cases h with
    | head => simp [get?, find?]
    | tail _ h =>
      have hne : key ≠ e.1 := fun h' => Std.lt_irrefl (h' ▸ hlt _ h)
      simpa [get?, find?, hne] using ih hl h

theorem mem_entries_iff [DecidableEq κ] {t : Table κ α} {key : κ} {a : α} :
    (key, a) ∈ t.entries ↔ t.get? key = some a :=
  ⟨get?_of_mem, mem_of_find?⟩

theorem mem_keys_iff [DecidableEq κ] {t : Table κ α} {key : κ} :
    key ∈ t.keys ↔ (t.get? key).isSome := by
  rw [Option.isSome_iff_exists]
  constructor
  · intro h
    obtain ⟨⟨key, a⟩, he, rfl⟩ := List.mem_map.1 h
    exact ⟨a, get?_of_mem he⟩
  · rintro ⟨a, h⟩
    exact List.mem_map_of_mem (mem_of_find? h)

/-- What is gathered from the entry of one key only. -/
theorem flatMap_entries_of_ne [DecidableEq κ] {β : Type} (t : Table κ α) (key : κ)
    (f : κ × α → List β) (h : ∀ e, e.1 ≠ key → f e = []) :
    t.entries.flatMap f = (t.get? key).elim [] fun a => f (key, a) := by
  obtain ⟨l, hl⟩ := t
  change l.flatMap f = (find? key l).elim [] fun a => f (key, a)
  induction l with
  | nil => rfl
  | cons e l ih =>
    obtain ⟨k, a⟩ := e
    obtain ⟨hlt, hl⟩ := List.pairwise_cons.1 hl
    rw [List.flatMap_cons, ih hl]
    by_cases hk : key = k
    · subst hk
      have hnone : find? key l = none :=
        find?_eq_none fun e he hek => Std.lt_irrefl (hek ▸ hlt e he)
      simp [find?, hnone]
    · simp [find?, hk, h (k, a) (Ne.symm hk)]

/-- What is read under a key once the entries of a table were written one after the other, where
`kept` says what becomes of the value that the table has under it. -/
theorem foldl_entries [DecidableEq κ] {β γ : Type} (t : Table κ α) (key : κ)
    (read : β → Option γ) (kept : α → Option γ) {write : β → κ × α → β}
    (hwrite : ∀ b e, read (write b e) = if key = e.1 then (kept e.2).or (read b) else read b)
    (b : β) : read (t.entries.foldl write b) = ((t.get? key).bind kept).or (read b) := by
  obtain ⟨l, hl⟩ := t
  change read (l.foldl write b) = ((find? key l).bind kept).or (read b)
  induction l generalizing b with
  | nil => rfl
  | cons e l ih =>
    obtain ⟨k, a⟩ := e
    obtain ⟨hlt, hl⟩ := List.pairwise_cons.1 hl
    rw [List.foldl_cons, ih _ hl, hwrite, find?]
    by_cases hk : key = k
    · have hnone : find? key l = none :=
        find?_eq_none fun e he hek => Std.lt_irrefl ((hek.trans hk) ▸ hlt e he)
      simp [hk, hk ▸ hnone]
    · simp [hk]

/-- A table is determined by its look-ups. -/
theorem ext_get? [Std.IsLinearOrder κ] [DecidableEq κ] {s t : Table κ α}
    (h : ∀ key, s.get? key = t.get? key) : s = t := by
  refine ext ?_
  have hmem : ∀ e, e ∈ s.entries ↔ e ∈ t.entries := fun (k, a) => by
    rw [mem_entries_iff, mem_entries_iff, h]
  exact ((List.perm_ext_iff_of_nodup s.nodup_entries t.nodup_entries).2 hmem).eq_of_pairwise
    (fun _ _ _ _ hab hba => absurd (Std.lt_trans hab hba) Std.lt_irrefl) s.ascending t.ascending

end Lawful

section Insertion

variable {κ α : Type} [LT κ] [LE κ] [DecidableEq κ] [DecidableLT κ]
  [Std.IsLinearOrder κ] [Std.LawfulOrderLT κ]

/-- Stores `value` under `key`, in place of any value it had. -/
def insert (t : Table κ α) (key : κ) (value : α) : Table κ α :=
  ⟨insertEntry key value t.entries, ascending_insertEntry t.ascending⟩

/-- The table of a list of pairs, in which a later pair replaces an earlier one with the same key.
-/
def ofList (pairs : List (κ × α)) : Table κ α :=
  pairs.foldl (fun t e => t.insert e.1 e.2) empty

theorem get?_insert (t : Table κ α) (key key' : κ) (value : α) :
    (t.insert key value).get? key' = if key' = key then some value else t.get? key' :=
  find?_insertEntry key key' value t.entries

/-- Of the pairs with one key, the last is found. -/
theorem get?_ofList (pairs : List (κ × α)) (key : κ) :
    (ofList pairs).get? key = find? key pairs.reverse := by
  have hfold (t : Table κ α) :
      (pairs.foldl (fun t e => t.insert e.1 e.2) t).get? key =
        (find? key pairs.reverse).or (t.get? key) := by
    induction pairs generalizing t with
    | nil => rfl
    | cons e pairs ih =>
      rw [List.foldl_cons, ih, get?_insert, List.reverse_cons, find?_append, Option.or_assoc, find?]
      split <;> rfl
  rw [ofList, hfold, get?_empty, Option.or_none]

theorem mem_of_mem_ofList {pairs : List (κ × α)} {e : κ × α} (h : e ∈ (ofList pairs).entries) :
    e ∈ pairs := by
  have key : ∀ (pairs : List (κ × α)) (t : Table κ α),
      e ∈ (pairs.foldl (fun t e => t.insert e.1 e.2) t).entries → e ∈ pairs ∨ e ∈ t.entries := by
    intro pairs
    induction pairs with
    | nil => exact fun t h => .inr h
    | cons e' pairs ih =>
      intro t h
      rcases ih _ h with h | h
      · exact .inl (.tail _ h)
      · rcases mem_insertEntry h with rfl | h
        · exact .inl (.head _)
        · exact .inr h
  exact (key pairs empty h).resolve_right List.not_mem_nil

@[simp] theorem ofList_entries (t : Table κ α) : ofList t.entries = t := by
  refine ext_get? fun key => ?_
  have h := t.foldl_entries key (·.get? key) some (fun t' e => t'.get?_insert e.1 key e.2) empty
  rw [get?_empty, Option.or_none, Option.bind_fun_some] at h
  exact h

end Insertion

end Table

end VarSubst
