import VarSubst.Store
import VarSubst.Text.Bytes

/-!
# The process environment

The process environment maps byte strings to byte strings. Seen as a store of texts it is partial on
both sides: a value that is not UTF-8 reads as absent, and an entry that an environment cannot hold
is not written. An attempt to assign such an entry is a panic, and a panic ends the process
(`Process`). It is the test before the assignment that rules this out (`Environment.isSome_set?`).
-/

namespace VarSubst

structure Environment where
  entries : Table Bytes Bytes
  deriving DecidableEq

namespace Environment

def empty : Environment := ⟨.empty⟩

/-- The byte of `=`, which ends a name where name and value are kept in one string. -/
def equalsSign : UInt8 := 0x3D

def nul : UInt8 := 0

/-- Assigns a variable. There is no outcome for a name that is empty or holds `=` or NUL, nor for a
value that holds NUL: an environment has no such entries. -/
def setVariable? (e : Environment) (name value : Bytes) : Option Environment :=
  if name = [] ∨ equalsSign ∈ name ∨ nul ∈ name ∨ nul ∈ value then none
  else some ⟨e.entries.insert name value⟩

/-- Whether a text can name a variable. -/
def canName (key : String) : Bool :=
  !key.isEmpty && key.toList.all fun c => c != '=' && c != '\x00'

/-- Whether a text can be the value of a variable. -/
def canHold (value : String) : Bool := value.toList.all (· != '\x00')

def get? (e : Environment) (key : String) : Option String :=
  if canName key then (e.entries.get? (.ofText key)).bind Bytes.text? else none

/-- Assigns a variable where both texts permit it and changes nothing otherwise. No outcome is a
panic. -/
def set? (e : Environment) (key value : String) : Option Environment :=
  if canName key && canHold value then e.setVariable? (.ofText key) (.ofText value) else some e

variable {key value : String}

/-- Not empty, without `=` and without NUL. -/
def IsName (key : String) : Prop := key ≠ "" ∧ '=' ∉ key.toList ∧ '\x00' ∉ key.toList

instance : DecidablePred IsName := fun _ => inferInstanceAs (Decidable (_ ∧ _))

theorem canName_iff : canName key = true ↔ IsName key := by
  rw [canName, IsName, Bool.and_eq_true]
  refine and_congr (by simp) ⟨fun h => ?_, fun ⟨hequals, hnul⟩ => ?_⟩
  · constructor <;> intro hmem <;> simpa using List.all_eq_true.1 h _ hmem
  · refine List.all_eq_true.2 fun c hc => ?_
    have hne : c ≠ '=' ∧ c ≠ '\x00' := ⟨fun h => hequals (h ▸ hc), fun h => hnul (h ▸ hc)⟩
    simpa using hne

theorem canHold_iff : canHold value = true ↔ '\x00' ∉ value.toList := by
  rw [canHold, List.all_eq_true]
  exact ⟨fun h hmem => by simpa using h _ hmem, fun h c hc => by
    simpa using fun heq : c = '\x00' => h (heq ▸ hc)⟩

theorem equalsSign_mem_ofText_iff : equalsSign ∈ Bytes.ofText key ↔ '=' ∈ key.toList :=
  Bytes.mem_ofText_iff (c := '=') (by decide)

theorem nul_mem_ofText_iff : nul ∈ Bytes.ofText key ↔ '\x00' ∈ key.toList :=
  Bytes.mem_ofText_iff (c := '\x00') (by decide)

/-- There is an outcome to an assignment wherever both texts permit it. -/
theorem setVariable?_eq_some (e : Environment) (hname : IsName key)
    (hvalue : '\x00' ∉ value.toList) : e.setVariable? (.ofText key) (.ofText value) =
      some ⟨e.entries.insert (.ofText key) (.ofText value)⟩ := by
  obtain ⟨hempty, hequals, hnul⟩ := hname
  rw [setVariable?, if_neg]
  simp [Bytes.ofText_eq_nil_iff, equalsSign_mem_ofText_iff, nul_mem_ofText_iff, *]

/-- What comes of a write: the entry where there can be one, and else the environment as it was. -/
theorem set?_eq_some (e : Environment) (key value : String) :
    e.set? key value = some (if IsName key ∧ '\x00' ∉ value.toList then
      ⟨e.entries.insert (.ofText key) (.ofText value)⟩ else e) := by
  have htest : (canName key && canHold value) = true ↔ IsName key ∧ '\x00' ∉ value.toList := by
    rw [Bool.and_eq_true, canName_iff, canHold_iff]
  by_cases h : IsName key ∧ '\x00' ∉ value.toList
  · rw [set?, if_pos (htest.2 h), if_pos h, setVariable?_eq_some e h.1 h.2]
  · rw [set?, if_neg (mt htest.1 h), if_neg h]

theorem isSome_set? (e : Environment) (key value : String) : (e.set? key value).isSome := by
  rw [set?_eq_some]
  rfl

/-- The outcome of a write. -/
def set (e : Environment) (key value : String) : Environment :=
  (e.set? key value).get (e.isSome_set? key value)

instance : Store Environment where
  get? := get?
  set := set

theorem set_eq (e : Environment) (key value : String) :
    e.set key value = if IsName key ∧ '\x00' ∉ value.toList then
      ⟨e.entries.insert (.ofText key) (.ofText value)⟩ else e :=
  Option.get_of_eq_some _ (e.set?_eq_some key value)

end Environment

/-- A process: it runs and has an environment, or a panic has ended it. -/
inductive Process where
  | running (environment : Environment)
  | panicked

namespace Process

def get? : Process → String → Option String
  | running e, key => e.get? key
  | panicked, _ => none

/-- Writes to the environment, or panics. Nothing is written after a panic. -/
def set : Process → String → String → Process
  | running e, key, value =>
    match e.set? key value with
    | some e' => running e'
    | none => panicked
  | panicked, _, _ => panicked

instance : Store Process where
  get? := get?
  set := set

theorem set_running (e : Environment) (key value : String) :
    (running e).set key value = running (e.set key value) := by
  have houtcome : e.set? key value = some (e.set key value) := (Option.some_get _).symm
  rw [set, houtcome]

end Process

end VarSubst
