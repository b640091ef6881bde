import VarSubst.Proofs.Outcome

/-!
# Descents

An expansion goes from a text down to the texts that its references stand for and to their defaults.
`Frame.Step` is one such step; the steps do not depend on how deep texts may nest. Whatever an
expansion records, it records at the end of a descent (`Scope.exists_descent`), so what a step
preserves (`Descent.preserves`) holds wherever something is recorded.
-/

namespace VarSubst

/-- A text that is expanded inside the expansions of the keys in `path`. -/
structure Frame where
  path : List String
  text : String

/-- The texts next to be expanded are those that keys off the path stand for, and the defaults. -/
inductive Frame.Step (value? : String → Option String) : Frame → Frame → Prop
  | value {path text r value} : .reference r ∈ Template.ofText text → r.key ∉ path →
    value? r.key = some value → Step value? ⟨path, text⟩ ⟨path ++ [r.key], value⟩
  | default {path text r body} : .reference r ∈ Template.ofText text → r.default? = some body →
    Step value? ⟨path, text⟩ ⟨path, body⟩

/-- `Descent value? n f g`: from `f` one gets down to `g` in `n` steps. -/
inductive Descent (value? : String → Option String) : Nat → Frame → Frame → Prop
  | refl {f} : Descent value? 0 f f
  | head {n f g h} : Frame.Step value? f g → Descent value? n g h → Descent value? (n + 1) f h

/-- What the references of a frame can have recorded, where texts may nest `depth` deep in it. -/
inductive Scope.Emits (s : Scope) : (depth : Nat) → Frame → Event → Prop
  | depth {path text r} : .reference r ∈ Template.ofText text →
    Emits s 0 ⟨path, text⟩ (.cut r.key (.depth s.maxDepth))
  | cycle {depth path text r} : .reference r ∈ Template.ofText text → r.key ∈ path →
    Emits s (depth + 1) ⟨path, text⟩ (.cut r.key (.cycle path))
  | unresolved {depth path text r} : .reference r ∈ Template.ofText text → r.key ∉ path →
    s.value? r.key = none → Emits s (depth + 1) ⟨path, text⟩ (.unresolved r.key)

namespace Descent

variable {value? : String → Option String} {k n : Nat} {f g : Frame}

/-- A statement about frames and their depth that steps preserve is preserved by descents. -/
theorem preserves {P : Nat → Frame → Prop}
    (step : ∀ {k f g}, Frame.Step value? f g → P k f → P (k + 1) g)
    (H : Descent value? n f g) (h : P k f) : P (k + n) g := by
  induction H generalizing k with
  | refl => exact h
  | @head n f g _ hs _ ih =>
    have h := ih (step hs h)
    rwa [Nat.add_assoc, Nat.add_comm 1 n] at h

end Descent

namespace Scope

variable {s : Scope} {depth : Nat} {path : List String} {text : String} {event : Event}

/-- What a reference has recorded comes from its key or its default. -/
theorem mem_events_expandReference {inner : List String → List Char → Expansion} {r : Reference}
    (h : event ∈ (s.expandReference inner path r).events) :
    event ∈ (s.expandKey inner path r.key).events ∨
      ∃ body, r.default? = some body ∧ event ∈ (inner path body.toList).events := by
  rcases s.expandReference_cases inner path r with ⟨_, hr⟩ | ⟨body, _, hd, hr⟩
  · rw [hr] at h
    exact .inl h
  · rw [hr] at h
    rcases List.mem_append.1 h with h | h
    · exact .inl h
    · exact .inr ⟨body, hd, h⟩

/-- Whatever the key of a reference has recorded, the reference has. -/
theorem mem_events_of_mem_expandKey {inner : List String → List Char → Expansion} {r : Reference}
    (h : event ∈ (s.expandKey inner path r.key).events) :
    event ∈ (s.expandReference inner path r).events := by
  rcases s.expandReference_cases inner path r with ⟨_, hr⟩ | ⟨body, _, _, hr⟩
  · rwa [hr]
  · rw [hr]
    exact List.mem_append_left _ h

/-- Whatever an expansion records, it records at the end of a descent. -/
theorem exists_descent (h : event ∈ (s.expandWithin depth path text.toList).events) :
    ∃ k left f, depth = k + left ∧ Descent s.value? k ⟨path, text⟩ f ∧ s.Emits left f event := by
  induction depth generalizing path text with
  | zero =>
    obtain ⟨r, hr, h⟩ := Expansion.mem_events_fill.1 h
    cases List.mem_singleton.1 h
    exact ⟨0, 0, _, rfl, .refl, .depth hr⟩
  | succ depth ih =>
    obtain ⟨r, hr, h⟩ := Expansion.mem_events_fill.1 h
    rcases mem_events_expandReference h with h | ⟨body, hd, h⟩
    · rcases s.expandKey_cases (s.expandWithin depth) path r.key with
        ⟨hmem, hk⟩ | ⟨hmem, hv, hk⟩ | ⟨value, hmem, hv, hk⟩
      · rw [hk] at h
        cases List.mem_singleton.1 h
        exact ⟨0, depth + 1, _, (Nat.zero_add _).symm, .refl, .cycle hr hmem⟩
      · rw [hk] at h
        cases List.mem_singleton.1 h
        exact ⟨0, depth + 1, _, (Nat.zero_add _).symm, .refl, .unresolved hr hmem hv⟩
      · rw [hk] at h
        obtain ⟨k, left, f, hk, H, hemit⟩ := ih h
        exact ⟨k + 1, left, f, by omega, .head (.value hr hmem hv) H, hemit⟩
    · obtain ⟨k, left, f, hk, H, hemit⟩ := ih h
      exact ⟨k + 1, left, f, by omega, .head (.default hr hd) H, hemit⟩

end Scope

end VarSubst
