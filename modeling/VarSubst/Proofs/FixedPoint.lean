import VarSubst.Proofs.Outcome
import VarSubst.Proofs.Scan

/-!
# Passes that leave nothing to do

A dollar of a clean text belongs to a reference, and so do the dollars in defaults (`Clean`). Where
all texts are clean, what references are replaced by holds no dollar
(`Scope.dollar_notMem_expandWithin`): a cut leaves nothing behind, and every other dollar goes with
the reference that it belongs to. A pass over such texts leaves the same values in the record and in
the store, so that a second one has nothing to do, whichever it looks up first
(`Record.expand_settles`).
-/

namespace VarSubst

/-- Byte `i` of the text lies in the span of the reference. -/
def Placed.Covers (p : Placed) (i : Nat) : Prop := p.start ≤ i ∧ i < p.stop

/-- Every dollar of the text lies in the span of one of its references, and the defaults of these
are clean. -/
inductive Clean : String → Prop
  | intro {text : String} :
    (∀ before after, text.toList = before ++ '$' :: after →
      ∃ p ∈ Template.references text, p.Covers (Text.byteSize before)) →
    (∀ p ∈ Template.references text, ∀ body, p.reference.default? = some body → Clean body) →
    Clean text

/-! ## Clean texts -/

/-- What stands at a byte behind the first of two parts stands in the second. -/
theorem Text.exists_append_of_byteSize_le {part rest before after : List Char} {c : Char}
    (h : part ++ rest = before ++ c :: after) (hle : byteSize part ≤ byteSize before) :
    ∃ behind, before = part ++ behind ∧ rest = behind ++ c :: after := by
  rcases List.append_eq_append_iff.1 h with h | ⟨inside, hpart, hinside⟩
  · exact h
  · cases inside with
    | nil => exact ⟨[], by simpa using hpart.symm, by simpa using hinside.symm⟩
    | cons d inside =>
      have hpos := d.utf8Size_pos
      rw [hpart, byteSize_append, byteSize_cons] at hle
      omega

namespace Template

/-- The dollars that no reference covers are those that are taken literally. -/
theorem forall_covers_iff {origin : Nat} {cs : List Char} :
    (∀ before after, cs = before ++ '$' :: after →
      ∃ p ∈ placed origin (ofChars cs), p.Covers (origin + Text.byteSize before)) ↔
    .literal '$' ∉ ofChars cs := by
  induction cs using scan_induction generalizing origin with
  | nil => simp
  | literal c cs h ih =>
    rw [ofChars_cons_of_none h, placed, List.mem_cons, not_or, ← @ih (origin + c.utf8Size)]
    constructor
    · intro H
      constructor
      · rintro ⟨⟩
        obtain ⟨p, hp, hle, -⟩ := H [] cs rfl
        have hstart := le_start_of_mem_placed hp
        have hpos := Char.utf8Size_pos '$'
        rw [Text.byteSize_nil] at hle
        omega
      · intro before after hcs
        obtain ⟨p, hp, hcovers⟩ := H (c :: before) after (by rw [hcs, List.cons_append])
        rw [Text.byteSize_cons, ← Nat.add_assoc] at hcovers
        exact ⟨p, hp, hcovers⟩
    · rintro ⟨hne, H⟩ before after hcs
      cases before with
      | nil =>
        cases hcs
        exact absurd rfl hne
      | cons d before =>
        cases hcs
        rw [Text.byteSize_cons, ← Nat.add_assoc]
        exact H before after rfl
  | reference r rest h ih =>
    have hliteral : .literal '$' ∉ Segment.reference r :: ofChars rest ↔
        .literal '$' ∉ ofChars rest := by simp
    rw [ofChars_append_of_some h, placed, hliteral, ← @ih (origin + Text.byteSize r.render)]
    constructor
    · intro H before after hrest
      obtain ⟨p, hp, hcovers⟩ := H (r.render ++ before) after (by rw [hrest, List.append_assoc])
      rw [Text.byteSize_append, ← Nat.add_assoc] at hcovers
      rcases List.mem_cons.1 hp with rfl | hp
      · exact absurd hcovers.2 (Nat.not_lt.2 (Nat.le_add_right _ _))
      · exact ⟨p, hp, hcovers⟩
    · intro H before after hcs
      rcases Nat.lt_or_ge (Text.byteSize before) (Text.byteSize r.render) with hlt | hle
      · exact ⟨_, List.mem_cons_self, Nat.le_add_right _ _, Nat.add_lt_add_left hlt origin⟩
      · obtain ⟨behind, rfl, hrest⟩ := Text.exists_append_of_byteSize_le hcs hle
        obtain ⟨p, hp, hcovers⟩ := H behind after hrest
        rw [Nat.add_assoc, ← Text.byteSize_append] at hcovers
        exact ⟨p, List.mem_cons_of_mem _ hp, hcovers⟩

/-- There are no references without dollars. -/
theorem ofChars_of_dollar_notMem {cs : List Char} (h : '$' ∉ cs) :
    ofChars cs = cs.map .literal := by
  induction cs with
  | nil => rfl
  | cons c cs ih =>
    obtain ⟨hc, hcs⟩ := not_or.1 (mt List.mem_cons.2 h)
    have hnone : Reference.ofPrefix? (c :: cs) = none := by
      unfold Reference.ofPrefix?
      split <;> simp_all
    rw [ofChars_cons_of_none hnone, ih hcs, List.map_cons]

end Template

/-- A text is clean if no dollar is taken literally, neither in it nor in a default. -/
theorem clean_iff {text : String} : Clean text ↔ .literal '$' ∉ Template.ofText text ∧
    ∀ r, .reference r ∈ Template.ofText text → ∀ body, r.default? = some body → Clean body := by
  have hcovers := @Template.forall_covers_iff 0 text.toList
  simp only [Nat.zero_add] at hcovers
  constructor
  · rintro ⟨hdollar, hdefault⟩
    refine ⟨hcovers.1 hdollar, fun r hr body hd => ?_⟩
    obtain ⟨p, hp, rfl⟩ := Template.exists_mem_placed_iff.2 hr
    exact hdefault p hp body hd
  · rintro ⟨hdollar, hdefault⟩
    refine .intro (hcovers.2 hdollar) fun p hp body hd => ?_
    exact hdefault p.reference (Template.exists_mem_placed_iff.1 ⟨p, hp, rfl⟩) body hd

theorem clean_empty : Clean "" := by
  have hnil : Template.ofText "" = [] := rfl
  rw [clean_iff, hnil]
  simp

/-! ## Expansions -/

theorem Expansion.notMem_text_fill {f : Reference → Expansion} {t : Template} {c : Char}
    (hliteral : .literal c ∉ t) (hreference : ∀ r, .reference r ∈ t → c ∉ (f r).text) :
    c ∉ (fill f t).text := by
  induction t with
  | nil => simp
  | cons segment t ih =>
    have ih := ih (fun h => hliteral (.tail _ h)) fun r hr => hreference r (.tail _ hr)
    cases segment with
    | literal d =>
      have hne : c ≠ d := by
        rintro rfl
        exact hliteral (.head _)
      simp [ih, hne]
    | reference r => simp [ih, hreference r (.head _)]

theorem Expansion.fill_map_literal (f : Reference → Expansion) (cs : List Char) :
    fill f (cs.map .literal) = { text := cs } := by
  induction cs with
  | nil => rfl
  | cons c cs ih => rw [List.map_cons, fill_literal, ih]

namespace Scope

variable {s : Scope}

/-- Clean texts expand to texts without dollars, in a scope that has clean texts only. -/
theorem dollar_notMem_expandWithin
    (hvalue : ∀ key value, s.value? key = some value → Clean value) (depth : Nat)
    {path : List String} {text : String} (htext : Clean text) :
    '$' ∉ (s.expandWithin depth path text.toList).text := by
  induction depth generalizing path text with
  | zero =>
    obtain ⟨hdollar, -⟩ := clean_iff.1 htext
    exact Expansion.notMem_text_fill hdollar fun r _ => List.not_mem_nil
  | succ depth ih =>
    obtain ⟨hdollar, hdefault⟩ := clean_iff.1 htext
    refine Expansion.notMem_text_fill hdollar fun r hr => ?_
    have hkey : '$' ∉ (s.expandKey (s.expandWithin depth) path r.key).text := by
      rcases s.expandKey_cases (s.expandWithin depth) path r.key with
        ⟨-, hk⟩ | ⟨-, -, hk⟩ | ⟨value, -, hv, hk⟩
      · rw [hk]
        exact List.not_mem_nil
      · rw [hk]
        exact List.not_mem_nil
      · rw [hk]
        exact ih (hvalue r.key value hv)
    rcases s.expandReference_cases (s.expandWithin depth) path r with ⟨-, hr'⟩ | ⟨body, -, hd, hr'⟩
    · rw [hr']
      exact hkey
    · rw [hr', Expansion.text_append, List.mem_append, not_or]
      exact ⟨hkey, ih (hdefault r hr body hd)⟩

/-- A text without dollars is its own expansion. -/
theorem expand_of_dollar_notMem {text : String} (h : '$' ∉ text.toList) (path : List String) :
    s.expand path text = { text := text.toList } := by
  rw [expand, expandWithin_eq_fill, Template.ofChars_of_dollar_notMem h,
    Expansion.fill_map_literal]

end Scope

namespace Config

variable {σ : Type} [Store σ] {config : Config} {store : σ} {options : Options} {key raw : String}

theorem dollar_notMem_expansion (hconfig : ∀ key value, config.get? key = some value → Clean value)
    (hstore : ∀ key value, Store.get? store key = some value → Clean value)
    (hget : config.get? key = some raw) :
    '$' ∉ (config.expansion store options key raw).text := by
  have hvalue (key value) (h : (config.scope store options).value? key = some value) :
      Clean value := of_value? hconfig hstore h
  exact Scope.dollar_notMem_expandWithin hvalue _ (of_selected hconfig hstore clean_empty hget)

end Config

/-! ## Passes -/

/-- If nothing was escaped and nothing met, there is nothing to report but the values. -/
theorem Report.ofOutcomes_of_quiet {outcomes : List (String × Outcome)}
    (h : ∀ e ∈ outcomes, e.2.escaped = false ∧ e.2.events = []) :
    (ofOutcomes outcomes).unresolved = [] ∧ (ofOutcomes outcomes).escaped = [] ∧
      (ofOutcomes outcomes).truncated = [] := by
  induction outcomes with
  | nil => exact ⟨rfl, rfl, rfl⟩
  | cons e outcomes ih =>
    obtain ⟨hescaped, hevents⟩ := h e (.head _)
    have ih := ih fun e he => h e (.tail _ he)
    simpa [ofOutcomes, hescaped, hevents] using ih

/-- A pass that leaves the record and the store as they were and has nothing to report but the
values. -/
structure Pass.Idle {σ : Type} (p : Pass σ) (record : Record) (store : σ) : Prop where
  record : p.record = record
  store : p.store = store
  unresolved : p.report.unresolved = []
  escaped : p.report.escaped = []
  truncated : p.report.truncated = []

namespace Record

/-- The values of the record hold no dollars, and the store has the same ones. -/
structure Settled (record : Record) (store : Table String String) : Prop where
  dollarFree : ∀ key value, record.get? key = some value → '$' ∉ value.toList
  stored : ∀ key value, record.get? key = some value → store.get? key = some value

variable {record : Record} {store : Table String String} {key value : String}

namespace Settled

/-- For a key of a settled record the sources have the same text. -/
theorem selected_eq (H : record.Settled store) (options : Options)
    (hget : record.get? key = some value) :
    record.parsed.selected store options key value = value := by
  rw [Config.selected]
  cases hfound : record.parsed.lookup store options key with
  | none => rfl
  | some found =>
    obtain ⟨source, value'⟩ := found
    have hget' := Config.get?_of_lookup_eq_some hfound
    cases source with
    | config => exact Option.some.inj (hget'.symm.trans hget)
    | environment => exact Option.some.inj (hget'.symm.trans (H.stored key value hget))

/-- There is nothing to do for a key of a settled record. -/
theorem outcome_eq (H : record.Settled store) (options : Options)
    (hget : record.get? key = some value) :
    record.parsed.outcome store options key value =
      { value
        source := (record.parsed.lookup store options key).map (·.1)
        escaped := false
        events := [] } := by
  have hdollar := H.dollarFree key value hget
  have hescape : ¬['\\', '$'] <:+: value.toList := fun h => hdollar (h.subset (by simp))
  rw [Config.outcome_of_not_escaped hescape, Config.expansion, H.selected_eq options hget,
    Scope.expand_of_dollar_notMem hdollar, String.ofList_toList]

/-- A pass over a settled record has nothing to do. -/
theorem expand_idle (H : record.Settled store) (options : Options) :
    Pass.Idle (record.expand store options) record store := by
  have hquiet : ∀ e ∈ (record.parsed.outcomes store options).entries,
      e.2.escaped = false ∧ e.2.events = [] := by
    rintro ⟨key, o⟩ ho
    rw [Table.mem_entries_iff, Config.get?_outcomes] at ho
    obtain ⟨value, hget, rfl⟩ := Option.map_eq_some_iff.1 ho
    rw [H.outcome_eq options hget]
    exact ⟨rfl, rfl⟩
  obtain ⟨hunresolved, hescaped, htruncated⟩ := Report.ofOutcomes_of_quiet hquiet
  have hparsed : (record.expand store options).record.parsed = record.parsed := by
    apply Table.ext_get?
    intro key
    change (record.expand store options).record.get? key = record.get? key
    rw [get?_expand]
    cases hget : record.get? key with
    | none => rw [Option.map_none]
    | some value => rw [Option.map_some, H.outcome_eq options hget]
  refine ⟨?_, ?_, hunresolved, hescaped, htruncated⟩
  · change { record with parsed := (record.expand store options).record.parsed } = record
    rw [hparsed]
  · change Store.setAll store (record.expand store options).record.parsed.entries = store
    rw [hparsed]
    apply Table.ext_get?
    intro key
    rw [Store.get?_setAll_entries]
    cases hget : record.parsed.get? key with
    | none => rw [Option.none_or]
    | some value => rw [Option.some_or, H.stored key value hget]
end Settled

/-- A pass over clean texts settles the record. -/
theorem settled_expand (options : Options)
    (hrecord : ∀ key value, record.get? key = some value →
      Clean value ∧ ¬['\\', '$'] <:+: value.toList)
    (hstore : ∀ key value, store.get? key = some value → Clean value) :
    (record.expand store options).record.Settled (record.expand store options).store where
  dollarFree key value h := by
    rw [get?_expand] at h
    obtain ⟨raw, hget, rfl⟩ := Option.map_eq_some_iff.1 h
    rw [Config.outcome_of_not_escaped (hrecord key raw hget).2, String.toList_ofList]
    exact Config.dollar_notMem_expansion (fun key value h => (hrecord key value h).1) hstore hget
  stored key value h := by
    rw [get?_store_expand, h, Option.some_or]

/-- **A pass over clean texts leaves nothing to do.** If the texts of a record and of a plain store
are clean, and none in the record is escaped, no dollar is left in the values, even where references
are cut; and a second pass, whichever source it prefers and however deep it lets texts nest, finds
record and store in order. -/
theorem expand_settles (record : Record) (store : Table String String) (options : Options)
    (hrecord : ∀ key value, record.get? key = some value →
      Clean value ∧ ¬['\\', '$'] <:+: value.toList)
    (hstore : ∀ key value, store.get? key = some value → Clean value) :
    (∀ key value, (record.expand store options).record.get? key = some value →
      '$' ∉ value.toList) ∧
    (∀ r ∈ (record.expand store options).report.resolved, '$' ∉ r.value.toList) ∧
    ∀ options' : Options,
      ((record.expand store options).record.expand (record.expand store options).store
        options').Idle (record.expand store options).record
        (record.expand store options).store := by
  have H := settled_expand options hrecord hstore
  refine ⟨H.dollarFree, ?_, H.expand_idle⟩
  intro r hr
  obtain ⟨raw, hget, hvalue, -⟩ := mem_resolved_expand.1 hr
  refine H.dollarFree r.key r.value ?_
  rw [get?_expand, hget, Option.map_some, hvalue]

/-- Two keys that lead to each other, one of them by way of a default. -/
def cleanTexts : Record := .ofConfig (.ofList [("A", "$\x7bB:-$C\x7d"), ("B", "$A")])

/-- A store with a text for the default, and one that is escaped. -/
def cleanStore : Table String String := .ofList [("C", "c"), ("D", "\\$C")]

/-- A reference is cut for its cycle, and still a second pass has nothing to do. -/
theorem cleanTexts_settles :
    (cleanTexts.expand cleanStore {}).record.get? "A" = some "c" ∧
    (cleanTexts.expand cleanStore {}).report.truncated ≠ [] ∧
    ∀ options' : Options,
      ((cleanTexts.expand cleanStore {}).record.expand (cleanTexts.expand cleanStore {}).store
        options').Idle (cleanTexts.expand cleanStore {}).record
        (cleanTexts.expand cleanStore {}).store := by
  have hA : Clean "$A" := by
    rw [clean_iff, show Template.ofText "$A" = [.reference ⟨"A", .bare⟩] by decide]
    simp [Reference.default?]
  have hC : Clean "$C" := by
    rw [clean_iff, show Template.ofText "$C" = [.reference ⟨"C", .bare⟩] by decide]
    simp [Reference.default?]
  have hB : Clean "$\x7bB:-$C\x7d" := by
    rw [clean_iff, show Template.ofText "$\x7bB:-$C\x7d" =
      [.reference ⟨"B", .withDefault true "$C"⟩] by decide]
    simp [Reference.default?, hC]
  have hc : Clean "c" := by
    rw [clean_iff, show Template.ofText "c" = [.literal 'c'] by decide]
    simp
  have hD : Clean "\\$C" := by
    rw [clean_iff, show Template.ofText "\\$C" = [.literal '\\', .reference ⟨"C", .bare⟩] by decide]
    simp [Reference.default?]
  have hentries : ∀ e ∈ cleanTexts.parsed.entries, e.2 = "$\x7bB:-$C\x7d" ∨ e.2 = "$A" := by decide
  have hstored : ∀ e ∈ cleanStore.entries, e.2 = "c" ∨ e.2 = "\\$C" := by decide
  refine ⟨by decide, by decide, (expand_settles cleanTexts cleanStore {} ?_ ?_).2.2⟩
  · intro key value hget
    rcases hentries (key, value) (Table.mem_entries_iff.2 hget) with rfl | rfl
    · exact ⟨hB, Escape.ofText?_eq_none_iff.1 (by decide)⟩
    · exact ⟨hA, Escape.ofText?_eq_none_iff.1 (by decide)⟩
  · intro key value hget
    rcases hstored (key, value) (Table.mem_entries_iff.2 hget) with rfl | rfl
    · exact hc
    · exact hD

/-- Where a dollar stands in front of a reference, the value may be a reference again. -/
example :
    let p := Record.expand (.ofConfig (.ofList [("A", "$$\x7bB\x7d"), ("B", "C"), ("C", "c")]))
      (.empty : Table String String) {}
    p.record.get? "A" = some "$C" ∧ (p.record.expand p.store {}).record.get? "A" = some "c" := by
  decide

end Record

end VarSubst
