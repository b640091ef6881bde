import VarSubst.Template

/-!
# Expanding texts

Each reference of a text is replaced by the expansion of the text that its key stands for; where
that is empty, by the expansion of its default. Two guards keep this finite: a key is not followed
inside its own expansion, and texts nest up to a bound only. A reference that a guard stops is cut,
that is, replaced by nothing. An expansion holds the new text and, in the order in which they were
met, the references that were cut and the keys that stood for nothing. `Expansion.Complete` says
that none was cut.
-/

namespace VarSubst

/-- Why a reference was cut. -/
inductive Cut where
  /-- Its key was being expanded already; `path` lists the keys that were, the outermost first. -/
  | cycle (path : List String)
  /-- It stood deeper than `limit` texts. -/
  | depth (limit : UInt64)
  deriving DecidableEq, Repr

inductive Event where
  | unresolved (key : String)
  | cut (key : String) (cause : Cut)
  deriving DecidableEq, Repr

namespace Event

def isCut : Event → Bool
  | .unresolved _ => false
  | .cut _ _ => true

/-- Whether a reference was cut because it stood too deep. -/
def isDepthCut : Event → Bool
  | .cut _ (.depth _) => true
  | _ => false

end Event

structure Expansion where
  text : List Char
  events : List Event := []
  deriving DecidableEq, Repr

namespace Expansion

/-- One expansion after another. -/
instance : Append Expansion where
  append e e' := { text := e.text ++ e'.text, events := e.events ++ e'.events }

/-- No event of a kind was met. -/
def Avoids (e : Expansion) (kind : Event → Bool) : Prop := ∀ event ∈ e.events, kind event = false

/-- No reference was cut. -/
def Complete (e : Expansion) : Prop := e.Avoids Event.isCut

def concat (parts : List Expansion) : Expansion where
  text := parts.flatMap text
  events := parts.flatMap events

/-- The expansion of a template in which each reference is replaced by its expansion. -/
def fill (reference : Reference → Expansion) (template : Template) : Expansion :=
  concat (template.map fun
    | .literal c => { text := [c] }
    | .reference r => reference r)

end Expansion

/-- What the references of a text can see: the text that a key stands for, and how deep texts may
nest. -/
structure Scope where
  value? : String → Option String
  maxDepth : UInt64

namespace Scope

/-- The expansion of a key inside the expansions of the keys in `path`, where `inner` expands the
text that it stands for. -/
def expandKey (s : Scope) (inner : List String → List Char → Expansion) (path : List String)
    (key : String) : Expansion :=
  if key ∈ path then { text := [], events := [.cut key (.cycle path)] }
  else
    match s.value? key with
    | none => { text := [], events := [.unresolved key] }
    | some value => inner (path ++ [key]) value.toList

/-- The expansion of a reference: that of its key or, where it is empty, that of its default. -/
def expandReference (s : Scope) (inner : List String → List Char → Expansion) (path : List String)
    (r : Reference) : Expansion :=
  let value := s.expandKey inner path r.key
  match value.text, r.default? with
  | [], some body =>
    let default := inner path body.toList
    { default with events := value.events ++ default.events }
  | _, _ => value

/-- The expansion of a text inside which texts may nest `depth` deep. -/
def expandWithin (s : Scope) : (depth : Nat) → (path : List String) → List Char → Expansion
  | 0, _, text =>
    .fill (fun r => { text := [], events := [.cut r.key (.depth s.maxDepth)] }) (.ofChars text)
  | depth + 1, path, text =>
    .fill (s.expandReference (s.expandWithin depth) path) (.ofChars text)

/-- The expansion of a text inside the expansions of the keys in `path`. -/
def expand (s : Scope) (path : List String) (text : String) : Expansion :=
  s.expandWithin s.maxDepth.toNat path text.toList

/-- The expansion of a reference that stands in a text inside which texts may nest `depth` deep. -/
def expandReferenceWithin (s : Scope) (depth : Nat) (path : List String) (r : Reference) :
    Expansion :=
  match depth with
  | 0 => { text := [], events := [.cut r.key (.depth s.maxDepth)] }
  | depth + 1 => s.expandReference (s.expandWithin depth) path r

end Scope

/-! ## Equations -/

namespace Expansion

variable {e e' : Expansion} {f g : Reference → Expansion} {t : Template}

@[simp] theorem text_append : (e ++ e').text = e.text ++ e'.text := rfl

@[simp] theorem events_append : (e ++ e').events = e.events ++ e'.events := rfl

@[simp] theorem fill_nil : fill f [] = { text := [] } := rfl

@[simp] theorem fill_literal (c : Char) :
    fill f (.literal c :: t) = { fill f t with text := c :: (fill f t).text } := rfl

@[simp] theorem fill_reference (r : Reference) :
    fill f (.reference r :: t) = f r ++ fill f t := rfl

/-- What becomes of a template hangs on the references in it alone. -/
theorem fill_congr (h : ∀ r, .reference r ∈ t → f r = g r) : fill f t = fill g t := by
  induction t with
  | nil => rfl
  | cons s t ih =>
    have ih := ih fun r hr => h r (.tail _ hr)
    cases s with
    | literal c => rw [fill_literal, fill_literal, ih]
    | reference r => rw [fill_reference, fill_reference, ih, h r (.head _)]

theorem mem_events_fill {event : Event} :
    event ∈ (fill f t).events ↔ ∃ r, .reference r ∈ t ∧ event ∈ (f r).events := by
  induction t with
  | nil => simp
  | cons s t ih => cases s <;> simp [ih, or_and_right, exists_or]

variable {kind : Event → Bool}

theorem avoids_append : (e ++ e').Avoids kind ↔ e.Avoids kind ∧ e'.Avoids kind := by
  simp only [Avoids, events_append, List.forall_mem_append]

theorem avoids_fill : (fill f t).Avoids kind ↔ ∀ r, .reference r ∈ t → (f r).Avoids kind := by
  constructor
  · intro h r hr event hevent
    exact h event (mem_events_fill.2 ⟨r, hr, hevent⟩)
  · intro h event hevent
    obtain ⟨r, hr, hevent⟩ := mem_events_fill.1 hevent
    exact h r hr event hevent

/-- An expansion that met a single event of a kind does not avoid it. -/
theorem not_avoids_singleton {text : List Char} {event : Event} (h : kind event = true) :
    ¬Avoids { text, events := [event] } kind := by
  intro ha
  rw [ha event (List.mem_singleton_self event)] at h
  cases h

end Expansion

namespace Scope

variable {s : Scope} {inner : List String → List Char → Expansion} {path : List String}
  {key value body : String} {r : Reference}

theorem expandKey_of_mem (h : key ∈ path) :
    s.expandKey inner path key = { text := [], events := [.cut key (.cycle path)] } := if_pos h

theorem expandKey_of_none (h : key ∉ path) (hv : s.value? key = none) :
    s.expandKey inner path key = { text := [], events := [.unresolved key] } := by
  rw [expandKey, if_neg h, hv]

theorem expandKey_of_some (h : key ∉ path) (hv : s.value? key = some value) :
    s.expandKey inner path key = inner (path ++ [key]) value.toList := by
  rw [expandKey, if_neg h, hv]

/-- A reference without a default, or whose key does not come to nothing, is its key. -/
theorem expandReference_eq_expandKey
    (h : (s.expandKey inner path r.key).text ≠ [] ∨ r.default? = none) :
    s.expandReference inner path r = s.expandKey inner path r.key := by
  rw [expandReference]
  split
  · next ht hd => cases h with
    | inl h => exact absurd ht h
    | inr h => rw [hd] at h; cases h
  · rfl

/-- A reference whose key comes to nothing is its default. -/
theorem expandReference_eq_default (ht : (s.expandKey inner path r.key).text = [])
    (hd : r.default? = some body) :
    s.expandReference inner path r =
      s.expandKey inner path r.key ++ inner path body.toList := by
  have hr : s.expandReference inner path r = { inner path body.toList with
      events := (s.expandKey inner path r.key).events ++ (inner path body.toList).events } := by
    simp only [expandReference, ht, hd]
  rw [hr]
  change _ = Expansion.mk (_ ++ _) _
  rw [ht, List.nil_append]

/-- The three things that can become of a key. -/
theorem expandKey_cases (s : Scope) (inner : List String → List Char → Expansion)
    (path : List String) (key : String) :
    (key ∈ path ∧
      s.expandKey inner path key = { text := [], events := [.cut key (.cycle path)] }) ∨
    (key ∉ path ∧ s.value? key = none ∧
      s.expandKey inner path key = { text := [], events := [.unresolved key] }) ∨
    ∃ value, key ∉ path ∧ s.value? key = some value ∧
      s.expandKey inner path key = inner (path ++ [key]) value.toList := by
  by_cases h : key ∈ path
  · exact .inl ⟨h, expandKey_of_mem h⟩
  · cases hv : s.value? key with
    | none => exact .inr (.inl ⟨h, rfl, expandKey_of_none h hv⟩)
    | some value => exact .inr (.inr ⟨value, h, rfl, expandKey_of_some h hv⟩)

/-- The two things that can become of a reference. -/
theorem expandReference_cases (s : Scope) (inner : List String → List Char → Expansion)
    (path : List String) (r : Reference) :
    (((s.expandKey inner path r.key).text ≠ [] ∨ r.default? = none) ∧
      s.expandReference inner path r = s.expandKey inner path r.key) ∨
    ∃ body, (s.expandKey inner path r.key).text = [] ∧ r.default? = some body ∧
      s.expandReference inner path r =
        s.expandKey inner path r.key ++ inner path body.toList := by
  by_cases h : (s.expandKey inner path r.key).text ≠ [] ∨ r.default? = none
  · exact .inl ⟨h, expandReference_eq_expandKey h⟩
  · obtain ⟨ht, hd⟩ := not_or.1 h
    have ht := Classical.not_not.1 ht
    obtain ⟨body, hd⟩ := Option.isSome_iff_exists.1 (Option.isSome_iff_ne_none.2 hd)
    exact .inr ⟨body, ht, hd, expandReference_eq_default ht hd⟩

/-- Keys expand alike if they stand for the same and that expands alike. -/
theorem expandKey_congr {s' : Scope} {inner' : List String → List Char → Expansion}
    (hvalue : s'.value? key = s.value? key)
    (hinner : ∀ value, key ∉ path → s.value? key = some value →
      inner' (path ++ [key]) value.toList = inner (path ++ [key]) value.toList) :
    s'.expandKey inner' path key = s.expandKey inner path key := by
  rcases s.expandKey_cases inner path key with ⟨hmem, hk⟩ | ⟨hmem, hv, hk⟩ | ⟨value, hmem, hv, hk⟩
  · rw [hk, expandKey_of_mem hmem]
  · rw [hk, expandKey_of_none hmem (hvalue.trans hv)]
  · rw [hk, expandKey_of_some hmem (hvalue.trans hv), hinner value hmem hv]

/-- References expand alike if their keys do and, where they come to nothing, their defaults. -/
theorem expandReference_congr {s' : Scope} {inner' : List String → List Char → Expansion}
    (hkey : s'.expandKey inner' path r.key = s.expandKey inner path r.key)
    (hdefault : ∀ body, (s.expandKey inner path r.key).text = [] → r.default? = some body →
      inner' path body.toList = inner path body.toList) :
    s'.expandReference inner' path r = s.expandReference inner path r := by
  rcases s.expandReference_cases inner path r with ⟨hne, hr⟩ | ⟨body, he, hd, hr⟩
  · rw [← hkey] at hne
    rw [hr, expandReference_eq_expandKey hne, hkey]
  · rw [hr, expandReference_eq_default (hkey ▸ he) hd, hkey, hdefault body he hd]

theorem expandWithin_eq_fill (depth : Nat) (path : List String) (text : List Char) :
    s.expandWithin depth path text =
      .fill (s.expandReferenceWithin depth path) (.ofChars text) := by
  cases depth <;> rfl

/-- There is nothing to expand in the empty text. -/
theorem expand_empty (s : Scope) (path : List String) : s.expand path "" = { text := [] } := by
  rw [expand, expandWithin_eq_fill]
  rfl

end Scope

end VarSubst
