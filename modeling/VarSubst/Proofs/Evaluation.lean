import VarSubst.Proofs.Outcome

/-!
# Evaluation without guards

`Evaluates` says what a text comes to when every reference is followed: there is no path of keys
and no bound on depth, so a cyclic reference has no evaluation at all. An evaluation has a height,
the number of texts that stand inside one another in it.

Expansion agrees with it wherever no guard is met. An expansion in which nothing was cut is an
evaluation (`Scope.exists_evaluates`). Conversely, where an evaluation is no higher than the texts
may nest, expansion gives just that (`Evaluates.expandWithin_eq`): a key met inside its own
expansion would have an evaluation higher than itself.
-/

namespace VarSubst

/-- What is evaluated: a text, as a template, or a key, or a reference. -/
inductive Subject where
  | template (t : Template)
  | key (key : String)
  | reference (r : Reference)

/-- `Evaluates value? subject e height`: evaluated without guards, `subject` comes to `e`. A default
is evaluated only where the key comes to nothing. -/
inductive Evaluates (value? : String → Option String) : Subject → Expansion → Nat → Prop
  | nil : Evaluates value? (.template []) { text := [] } 0
  | literal {c t e h} : Evaluates value? (.template t) e h →
    Evaluates value? (.template (.literal c :: t)) { e with text := c :: e.text } h
  | next {r t e e' h h'} : Evaluates value? (.reference r) e h →
    Evaluates value? (.template t) e' h' →
    Evaluates value? (.template (.reference r :: t)) (e ++ e') (max (h + 1) h')
  | absent {key} : value? key = none →
    Evaluates value? (.key key) { text := [], events := [.unresolved key] } 0
  | present {key value e h} : value? key = some value →
    Evaluates value? (.template (.ofText value)) e h → Evaluates value? (.key key) e h
  | value {r e h} : Evaluates value? (.key r.key) e h → e.text ≠ [] ∨ r.default? = none →
    Evaluates value? (.reference r) e h
  | default {r body e e' h h'} : Evaluates value? (.key r.key) e h → e.text = [] →
    r.default? = some body → Evaluates value? (.template (.ofText body)) e' h' →
    Evaluates value? (.reference r) (e ++ e') (max h h')

namespace Evaluates

variable {value? : String → Option String} {subject : Subject} {e e' : Expansion} {h h' : Nat}

/-- An evaluation and its height are determined by what is evaluated. -/
theorem unique (H : Evaluates value? subject e h) (H' : Evaluates value? subject e' h') :
    e = e' ∧ h = h' := by
  induction H generalizing e' h' with
  | nil => cases H'; exact ⟨rfl, rfl⟩
  | literal _ ih =>
    cases H' with
    | literal H' => obtain ⟨rfl, rfl⟩ := ih H'; exact ⟨rfl, rfl⟩
  | next _ _ ihr iht =>
    cases H' with
    | next Hr' Ht' =>
      obtain ⟨rfl, rfl⟩ := ihr Hr'
      obtain ⟨rfl, rfl⟩ := iht Ht'
      exact ⟨rfl, rfl⟩
  | absent hv =>
    cases H' with
    | absent => exact ⟨rfl, rfl⟩
    | present hv' => rw [hv] at hv'; cases hv'
  | present hv _ ih =>
    cases H' with
    | absent hv' => rw [hv] at hv'; cases hv'
    | present hv' H' => rw [hv] at hv'; cases hv'; exact ih H'
  | value _ hne ih =>
    cases H' with
    | value H' => exact ih H'
    | default H' he hd =>
      obtain ⟨rfl, rfl⟩ := ih H'
      rcases hne with hne | hne
      · exact absurd he hne
      · rw [hd] at hne; cases hne
  | default _ he hd _ ihk ihd =>
    cases H' with
    | value H' hne =>
      obtain ⟨rfl, rfl⟩ := ihk H'
      rcases hne with hne | hne
      · exact absurd he hne
      · rw [hd] at hne; cases hne
    | default Hk' _ hd' Hd' =>
      rw [hd] at hd'
      cases hd'
      obtain ⟨rfl, rfl⟩ := ihk Hk'
      obtain ⟨rfl, rfl⟩ := ihd Hd'
      exact ⟨rfl, rfl⟩

/-- Evaluation cuts nothing. -/
theorem complete (H : Evaluates value? subject e h) : e.Complete := by
  induction H with
  | nil => exact fun _ hevent => nomatch hevent
  | absent =>
    intro event hevent
    cases List.mem_singleton.1 hevent
    rfl
  | literal _ ih | present _ _ ih | value _ _ ih => exact ih
  | next _ _ ih ih' | default _ _ _ _ ih ih' => exact Expansion.avoids_append.2 ⟨ih, ih'⟩

end Evaluates

/-! ## Expansions in which nothing was cut -/

namespace Scope

variable {s : Scope}

/-- The references of a template evaluate to their expansions, hence so does the template. -/
theorem evaluates_fill {f : Reference → Expansion} {t : Template} {bound : Nat}
    (H : ∀ r, .reference r ∈ t → ∃ h < bound, Evaluates s.value? (.reference r) (f r) h) :
    ∃ h ≤ bound, Evaluates s.value? (.template t) (.fill f t) h := by
  induction t with
  | nil => exact ⟨0, Nat.zero_le _, .nil⟩
  | cons segment t ih =>
    obtain ⟨h', hle', ht⟩ := ih fun r hr => H r (.tail _ hr)
    cases segment with
    | literal c => exact ⟨h', hle', ht.literal⟩
    | reference r =>
      obtain ⟨h, hlt, hr⟩ := H r (.head _)
      exact ⟨max (h + 1) h', Nat.max_le.2 ⟨hlt, hle'⟩, hr.next ht⟩

theorem exists_evaluates_key {inner : List String → List Char → Expansion} {bound : Nat}
    (ih : ∀ path text, (inner path text.toList).Complete →
      ∃ h ≤ bound, Evaluates s.value? (.template (.ofText text)) (inner path text.toList) h)
    {path : List String} {key : String} (hc : (s.expandKey inner path key).Complete) :
    ∃ h ≤ bound, Evaluates s.value? (.key key) (s.expandKey inner path key) h := by
  rcases s.expandKey_cases inner path key with ⟨_, hk⟩ | ⟨_, hv, hk⟩ | ⟨value, _, hv, hk⟩
  · rw [hk] at hc
    exact absurd hc (Expansion.not_avoids_singleton rfl)
  · rw [hk]
    exact ⟨0, Nat.zero_le _, .absent hv⟩
  · rw [hk] at hc ⊢
    obtain ⟨h, hle, H⟩ := ih _ _ hc
    exact ⟨h, hle, .present hv H⟩

theorem exists_evaluates_reference {inner : List String → List Char → Expansion} {bound : Nat}
    (ih : ∀ path text, (inner path text.toList).Complete →
      ∃ h ≤ bound, Evaluates s.value? (.template (.ofText text)) (inner path text.toList) h)
    {path : List String} {r : Reference} (hc : (s.expandReference inner path r).Complete) :
    ∃ h ≤ bound, Evaluates s.value? (.reference r) (s.expandReference inner path r) h := by
  rcases s.expandReference_cases inner path r with ⟨hne, hr⟩ | ⟨body, he, hd, hr⟩
  · rw [hr] at hc ⊢
    obtain ⟨h, hle, H⟩ := exists_evaluates_key ih hc
    exact ⟨h, hle, .value H hne⟩
  · rw [hr] at hc ⊢
    obtain ⟨hck, hcd⟩ := Expansion.avoids_append.1 hc
    obtain ⟨h, hle, Hk⟩ := exists_evaluates_key ih hck
    obtain ⟨h', hle', Hd⟩ := ih _ _ hcd
    exact ⟨max h h', Nat.max_le.2 ⟨hle, hle'⟩, .default Hk he hd Hd⟩

/-- An expansion in which nothing was cut is an evaluation, no higher than the texts nest. -/
theorem exists_evaluates (depth : Nat) (path : List String) (text : String)
    (hc : (s.expandWithin depth path text.toList).Complete) :
    ∃ h ≤ depth, Evaluates s.value? (.template (.ofText text))
      (s.expandWithin depth path text.toList) h := by
  induction depth generalizing path text with
  | zero =>
    apply evaluates_fill
    intro r hr
    exact absurd (Expansion.avoids_fill.1 hc r hr) (Expansion.not_avoids_singleton rfl)
  | succ depth ih =>
    apply evaluates_fill
    intro r hr
    obtain ⟨h, hle, H⟩ := exists_evaluates_reference ih (Expansion.avoids_fill.1 hc r hr)
    exact ⟨h, Nat.lt_succ_of_le hle, H⟩

end Scope

/-! ## Evaluations that fit -/

/-- The text that `key` stands for has an evaluation of at least the given height. -/
def Tall (value? : String → Option String) (height : Nat) (key : String) : Prop :=
  ∃ value e h, value? key = some value ∧
    Evaluates value? (.template (.ofText value)) e h ∧ height ≤ h

theorem Tall.mono {value? : String → Option String} {height height' : Nat} {key : String}
    (H : Tall value? height key) (hle : height' ≤ height) : Tall value? height' key := by
  obtain ⟨value, e, h, hv, he, hh⟩ := H
  exact ⟨value, e, h, hv, he, Nat.le_trans hle hh⟩

namespace Subject

/-- What expansion makes of a subject. -/
def expandWithin (s : Scope) (depth : Nat) (path : List String) : Subject → Expansion
  | .template t => .fill (s.expandReferenceWithin depth path) t
  | .key k => s.expandKey (s.expandWithin depth) path k
  | .reference r => s.expandReference (s.expandWithin depth) path r

/-- The least height of a text that a subject of the given height stands in. -/
def textHeight (height : Nat) : Subject → Nat
  | .template _ => height
  | .key _ | .reference _ => height + 1

end Subject

namespace Evaluates

variable {s : Scope} {subject : Subject} {path : List String} {e : Expansion} {h depth : Nat}

/-- The keys in `path` stand for texts at least as high as the one being expanded, so none of them
is met again in it. -/
theorem expandWithin_subject_eq (H : Evaluates s.value? subject e h) (hle : h ≤ depth)
    (hpath : ∀ key ∈ path, Tall s.value? (subject.textHeight h) key) :
    subject.expandWithin s depth path = e := by
  induction H generalizing depth path with
  | nil => rfl
  | literal _ ih =>
    have ht := ih hle hpath
    change Expansion.fill _ (_ :: _) = _
    rw [Expansion.fill_literal]
    change Expansion.fill _ _ = _ at ht
    rw [ht]
  | @next r t e e' h h' _ _ ihr iht =>
    obtain ⟨hle, hle'⟩ := Nat.max_le.1 hle
    obtain ⟨depth, rfl⟩ : ∃ d, depth = d + 1 := ⟨depth - 1, by omega⟩
    have hr := ihr (Nat.le_of_succ_le_succ hle) fun key hk =>
      (hpath key hk).mono (Nat.le_max_left (h + 1) h')
    have ht := iht hle' fun key hk => (hpath key hk).mono (Nat.le_max_right (h + 1) h')
    change Expansion.fill _ (_ :: _) = _
    rw [Expansion.fill_reference]
    exact congr (congrArg _ hr) ht
  | @absent key hv =>
    apply Scope.expandKey_of_none _ hv
    intro hmem
    obtain ⟨_, _, _, hv', _⟩ := hpath key hmem
    rw [hv] at hv'
    cases hv'
  | @present key value e h hv H ih =>
    have hmem : key ∉ path := by
      intro hmem
      obtain ⟨value', e', h', hv', H', hlt⟩ := hpath key hmem
      rw [hv] at hv'
      cases hv'
      obtain ⟨-, rfl⟩ := H.unique H'
      exact Nat.lt_irrefl _ hlt
    refine (Scope.expandKey_of_some hmem hv).trans ?_
    rw [Scope.expandWithin_eq_fill]
    apply ih hle
    intro key' hk
    rcases List.mem_append.1 hk with hk | hk
    · exact (hpath key' hk).mono (Nat.le_succ h)
    · cases List.mem_singleton.1 hk
      exact ⟨value, e, h, hv, H, Nat.le_refl h⟩
  | @value r e h H hne ih =>
    have hk : s.expandKey (s.expandWithin depth) path r.key = e := ih hle hpath
    rw [← hk] at hne
    exact (Scope.expandReference_eq_expandKey hne).trans hk
  | @default r body e e' h h' Hk he hd Hd ihk ihd =>
    obtain ⟨hle, hle'⟩ := Nat.max_le.1 hle
    have hk : s.expandKey (s.expandWithin depth) path r.key = e :=
      ihk hle fun key hk => (hpath key hk).mono (Nat.succ_le_succ (Nat.le_max_left h h'))
    have hb : s.expandWithin depth path body.toList = e' := by
      rw [Scope.expandWithin_eq_fill]
      exact ihd hle' fun key hk =>
        (hpath key hk).mono (Nat.le_succ_of_le (Nat.le_max_right h h'))
    rw [← hk] at he
    refine (Scope.expandReference_eq_default he hd).trans ?_
    rw [hk, hb]

theorem expandWithin_eq {text : String} (H : Evaluates s.value? (.template (.ofText text)) e h)
    (hle : h ≤ depth) (hpath : ∀ key ∈ path, Tall s.value? h key) :
    s.expandWithin depth path text.toList = e := by
  rw [Scope.expandWithin_eq_fill]
  exact H.expandWithin_subject_eq hle hpath

end Evaluates

/-! ## Passes and interpolation -/

/-- Given that evaluations that fit are expansions, nothing is cut exactly where there is one. -/
theorem Scope.complete_expand_iff {s : Scope} {path : List String} {text : String}
    (heq : ∀ e, ∀ h ≤ s.maxDepth.toNat, Evaluates s.value? (.template (.ofText text)) e h →
      s.expand path text = e) :
    (s.expand path text).Complete ↔
      ∃ e, ∃ h ≤ s.maxDepth.toNat, Evaluates s.value? (.template (.ofText text)) e h := by
  constructor
  · intro hc
    exact ⟨_, s.exists_evaluates _ path text hc⟩
  · rintro ⟨e, h, hle, H⟩
    rw [heq e h hle H]
    exact H.complete

variable {σ : Type} [Store σ]

namespace Config

/-- A text evaluates to `e`, at the given height, with the keys of a configuration and a store. -/
abbrev EvaluatesTo (config : Config) (store : σ) (options : Options) (text : String)
    (e : Expansion) (height : Nat) : Prop :=
  Evaluates (config.scope store options).value? (.template (.ofText text)) e height

variable {config : Config} {store : σ} {options : Options} {e : Expansion} {h : Nat}

/-- A configured key stands for the text in use for it, so it is as tall as that text. -/
theorem expansion_eq_of_evaluatesTo {key raw : String} (hget : config.get? key = some raw)
    (H : config.EvaluatesTo store options (config.selected store options key raw) e h)
    (hle : h ≤ options.maxDepth.toNat) : config.expansion store options key raw = e := by
  rcases value?_or_selected_eq_empty store options hget with hv | ⟨-, he⟩
  · apply H.expandWithin_eq hle
    intro key' hk
    cases List.mem_singleton.1 hk
    exact ⟨_, e, h, hv, H, Nat.le_refl h⟩
  · rw [expansion, he, Scope.expand_empty]
    rw [he] at H
    cases H
    rfl

theorem expand_nil_eq_of_evaluatesTo {text : String}
    (H : config.EvaluatesTo store options text e h) (hle : h ≤ options.maxDepth.toNat) :
    (config.scope store options).expand [] text = e :=
  H.expandWithin_eq hle fun _ hk => nomatch hk

end Config

/-- **Expansion refines evaluation.** For a key without an escape nothing is cut exactly if the text
in use for it has an evaluation that fits into the depth, and then that is its value. The same holds
of texts that belong to no key. -/
theorem Record.untruncated_iff_evaluatesTo (record : Record) (store : σ) (options : Options) :
    (∀ key raw, record.get? key = some raw → ¬['\\', '$'] <:+: raw.toList →
      ((∀ t ∈ (record.expand store options).report.truncated, t.origin ≠ key) ↔
        ∃ e, ∃ h ≤ options.maxDepth.toNat, record.parsed.EvaluatesTo store options
          (record.parsed.selected store options key raw) e h) ∧
      ∀ e, ∀ h ≤ options.maxDepth.toNat, record.parsed.EvaluatesTo store options
          (record.parsed.selected store options key raw) e h →
        (record.expand store options).record.get? key = some (String.ofList e.text)) ∧
    ∀ text,
      (((record.parsed.scope store options).expand [] text).Complete ↔
        ∃ e, ∃ h ≤ options.maxDepth.toNat, record.parsed.EvaluatesTo store options text e h) ∧
      ∀ e, ∀ h ≤ options.maxDepth.toNat, record.parsed.EvaluatesTo store options text e h →
        record.parsed.interpolate store options text = String.ofList e.text := by
  constructor
  · intro key raw hget hraw
    have heq : ∀ e, ∀ h ≤ options.maxDepth.toNat, record.parsed.EvaluatesTo store options
        (record.parsed.selected store options key raw) e h →
          record.parsed.expansion store options key raw = e :=
      fun e h hle H => Config.expansion_eq_of_evaluatesTo hget H hle
    constructor
    · rw [untruncated_iff_complete hget hraw]
      exact Scope.complete_expand_iff heq
    · intro e h hle H
      rw [get?_expand_of_not_escaped hget hraw, heq e h hle H]
  · intro text
    have heq : ∀ e, ∀ h ≤ options.maxDepth.toNat,
        record.parsed.EvaluatesTo store options text e h →
          (record.parsed.scope store options).expand [] text = e :=
      fun e h hle H => Config.expand_nil_eq_of_evaluatesTo H hle
    constructor
    · exact Scope.complete_expand_iff heq
    · intro e h hle H
      rw [Config.interpolate, heq e h hle H]

/-- A cycle that runs through a default only, which is never needed. -/
def Record.unusedCycle : Record := .ofConfig (.ofList [("A", "${B:-$A}"), ("B", "b")])

theorem Record.unusedCycle_untruncated :
    (∀ t ∈ (unusedCycle.expand (.empty : Table String String) { maxDepth := 1 }).report.truncated,
      t.origin ≠ "A") ∧
    (unusedCycle.expand (.empty : Table String String) { maxDepth := 1 }).record.get? "A" =
      some "b" := by
  have hget : unusedCycle.get? "A" = some "${B:-$A}" := by decide
  have hraw : ¬['\\', '$'] <:+: "${B:-$A}".toList :=
    Escape.ofText?_eq_none_iff.1 (by decide)
  have hkey := (untruncated_iff_evaluatesTo unusedCycle (.empty : Table String String)
    { maxDepth := 1 }).1 "A" _ hget hraw
  have hb : Template.ofText "b" = [.literal 'b'] := by decide
  have ha : Template.ofText "${B:-$A}" = [.reference ⟨"B", .withDefault true "$A"⟩] := by decide
  have hB : unusedCycle.parsed.EvaluatesTo (.empty : Table String String) { maxDepth := 1 } "b"
      { text := ['b'] } 0 := by
    rw [Config.EvaluatesTo, hb]
    exact .literal .nil
  have hA : unusedCycle.parsed.EvaluatesTo (.empty : Table String String) { maxDepth := 1 }
      "${B:-$A}" { text := ['b'] } 1 := by
    rw [Config.EvaluatesTo, ha]
    exact .next (.value (.present (by decide) hB) (.inl (List.cons_ne_nil _ _))) .nil
  have hs : unusedCycle.parsed.selected (.empty : Table String String) { maxDepth := 1 } "A"
      "${B:-$A}" = "${B:-$A}" := by decide
  rw [hs] at hkey
  exact ⟨hkey.1.2 ⟨_, 1, Nat.le_refl 1, hA⟩, hkey.2 _ 1 (Nat.le_refl 1) hA⟩

end VarSubst
