import VarSubst.Proofs.Truncation

/-!
# What a key depends on

The text of a key leads to other keys through its references, those in defaults included
(`Config.Reaches`). Expansion asks for no other key: scopes that agree on what a text leads to
expand it alike (`Scope.Agree.expandWithin_eq`), so what becomes of a key hangs on the keys that it
reaches and not on the rest of the record or the store (`Record.expand_local`).
-/

namespace VarSubst

/-- Two scopes agree on the given keys, among which are all those that the text of one of them
refers to. -/
structure Scope.Agree (s s' : Scope) (keys : String → Prop) : Prop where
  maxDepth : s'.maxDepth = s.maxDepth
  value : ∀ key, keys key → s'.value? key = s.value? key
  closed : ∀ key key', keys key → RefersTo s.value? key key' → keys key'

namespace Scope

variable {s s' : Scope} {keys : String → Prop}

/-! ## Expansions in scopes that agree -/

/-- A text expands alike in scopes that agree on what it leads to. -/
theorem Agree.expandWithin_eq (H : s.Agree s' keys) (depth : Nat) {path : List String}
    {text : String} (htext : ∀ r : Reference, r.Occurs text → keys r.key) :
    s'.expandWithin depth path text.toList = s.expandWithin depth path text.toList := by
  induction depth generalizing path text with
  | zero => rw [expandWithin, expandWithin, H.maxDepth]
  | succ depth ih =>
    apply Expansion.fill_congr
    intro r hr
    have hkey : keys r.key := htext r (.here hr)
    apply expandReference_congr
    · apply expandKey_congr (H.value r.key hkey)
      intro value _ hv
      exact ih fun r' hr' => H.closed r.key r'.key hkey ⟨value, r', hv, hr', rfl⟩
    · intro body _ hd
      exact ih fun r' hr' => htext r' (.within hr hd hr')

end Scope

/-! ## What a key reaches -/

theorem Reference.occurs_iff {r : Reference} {text : String} :
    r.Occurs text ↔ .reference r ∈ Template.ofText text ∨
      ∃ r' body, .reference r' ∈ Template.ofText text ∧ r'.default? = some body ∧
        r.Occurs body := by
  constructor
  · intro h
    cases h with
    | here hr => exact .inl hr
    | within hr hd h => exact .inr ⟨_, _, hr, hd, h⟩
  · rintro (hr | ⟨r', body, hr, hd, h⟩)
    · exact .here hr
    · exact .within hr hd h

theorem Reference.not_occurs_empty (r : Reference) : ¬r.Occurs "" := by
  have hnil : Template.ofText "" = [] := rfl
  rw [occurs_iff, hnil]
  simp

namespace Config

variable {σ τ : Type} [Store σ] [Store τ] {config config' : Config} {store : σ} {store' : τ}
  {options options' : Options} {key raw raw' : String}

/-- A key leads to another in any number of steps. -/
def Reaches (config : Config) (store : σ) (options : Options) : String → String → Prop :=
  Relation.ReflTransGen (RefersTo (config.scope store options).value?)

/-- What a key reaches stays among keys whose texts do not lead out of them. -/
theorem Reaches.mem_of_closed {keys : List String} {j : String}
    (H : config.Reaches store options key j) (hkey : key ∈ keys)
    (hclosed : ∀ k ∈ keys, ∀ k', RefersTo (config.scope store options).value? k k' → k' ∈ keys) :
    j ∈ keys := by
  induction H with
  | refl => exact hkey
  | tail _ hrefers ih => exact hclosed _ ih _ hrefers

theorem agree_of_reaches (hdepth : options'.maxDepth = options.maxDepth)
    (hvalue : ∀ j, config.Reaches store options key j →
      (config'.scope store' options').value? j = (config.scope store options).value? j) :
    (config.scope store options).Agree (config'.scope store' options')
      (config.Reaches store options key) where
  maxDepth := hdepth
  value := hvalue
  closed _ _ hreach hrefers := hreach.tail hrefers

/-- The text in use for a configured key is determined by what the key stands for. -/
theorem selected_congr (hget : config.get? key = some raw) (hget' : config'.get? key = some raw')
    (hvalue : (config'.scope store' options').value? key =
      (config.scope store options).value? key) :
    config'.selected store' options' key raw' = config.selected store options key raw := by
  rcases value?_or_selected_eq_empty store options hget with hv | ⟨hv, he⟩ <;>
    rcases value?_or_selected_eq_empty store' options' hget' with hv' | ⟨hv', he'⟩
  · exact Option.some.inj (hv'.symm.trans (hvalue.trans hv))
  · exact nomatch hv'.symm.trans (hvalue.trans hv)
  · exact nomatch hv'.symm.trans (hvalue.trans hv)
  · rw [he, he']

/-- Configured keys expand alike where what they reach stands for the same. -/
theorem expansion_congr (hget : config.get? key = some raw) (hget' : config'.get? key = some raw')
    (hdepth : options'.maxDepth = options.maxDepth)
    (hvalue : ∀ j, config.Reaches store options key j →
      (config'.scope store' options').value? j = (config.scope store options).value? j) :
    config'.expansion store' options' key raw' = config.expansion store options key raw := by
  have hagree := agree_of_reaches hdepth hvalue
  rw [expansion, expansion, selected_congr hget hget' (hvalue key .refl), Scope.expand,
    Scope.expand, hagree.maxDepth]
  apply hagree.expandWithin_eq
  intro r hr
  rcases value?_or_selected_eq_empty store options hget with hv | ⟨-, he⟩
  · exact .single ⟨_, r, hv, hr, rfl⟩
  · exact absurd (he ▸ hr) r.not_occurs_empty

/-- ... and have the same outcome, but for where their text was found. -/
theorem outcome_eq_of_reaches (hget : config.get? key = some raw)
    (hget' : config'.get? key = some raw') (hescape : Escape.ofText? raw' = Escape.ofText? raw)
    (hdepth : options'.maxDepth = options.maxDepth)
    (hvalue : ∀ j, config.Reaches store options key j →
      (config'.scope store' options').value? j = (config.scope store options).value? j) :
    config'.outcome store' options' key raw' =
      { config.outcome store options key raw with
        source := (config'.lookup store' options' key).map (·.1) } := by
  have hselected := selected_congr hget hget' (hvalue key .refl)
  have hexpansion := expansion_congr hget hget' hdepth hvalue
  rw [outcome_eq, outcome_eq, hescape, hselected, hexpansion]
  cases Escape.ofText? raw <;> rfl

/-! ## Sources -/

/-- A source still has the same under a key, or it has now the empty text where it had nothing. -/
def SameOrBlank (old new : Option String) : Prop := new = old ∨ old = none ∧ new = some ""

/-- An empty text is as good as none. -/
theorem lookup_congr
    (h : ∀ source : Source,
      SameOrBlank (source.get? config store key) (source.get? config' store' key)) :
    config'.lookup store' options key = config.lookup store options key := by
  unfold lookup
  congr
  funext source
  rcases h source with heq | ⟨hold, hnew⟩
  · rw [heq]
  · rw [hold, hnew]
    rfl

/-- A configured key has the same outcome where the sources have the same under what it reaches. -/
theorem outcome_eq_of_sameOrBlank (hget : config.get? key = some raw)
    (hget' : config'.get? key = some raw)
    (h : ∀ j, config.Reaches store options key j → ∀ source : Source,
      SameOrBlank (source.get? config store j) (source.get? config' store' j)) :
    config'.outcome store' options key raw = config.outcome store options key raw := by
  have hlookup (j) (hj : config.Reaches store options key j) :
      config'.lookup store' options j = config.lookup store options j := lookup_congr (h j hj)
  have hvalue (j) (hj : config.Reaches store options key j) :
      (config'.scope store' options).value? j = (config.scope store options).value? j :=
    congrArg (Option.map _) (hlookup j hj)
  exact outcome_congr (hlookup key .refl) fun _ => expansion_congr hget hget' rfl hvalue

theorem precedence_exchange (options : Options) :
    { options with environmentFirst := !options.environmentFirst : Options }.precedence =
      options.precedence.map Source.other := by
  unfold Options.precedence
  cases options.environmentFirst <;> rfl

/-- Each source takes the place of the other when their contents and the precedence are exchanged.
-/
theorem scope_exchange (hconfig : ∀ key, config'.get? key = Store.get? store key)
    (hstore : ∀ key, Store.get? store' key = config.get? key) :
    config'.scope store' { options with environmentFirst := !options.environmentFirst } =
      config.scope store options := by
  have hlookup (key : String) : config'.lookup store'
      { options with environmentFirst := !options.environmentFirst } key =
        (config.lookup store options key).map fun found => (found.1.other, found.2) := by
    rw [lookup, precedence_exchange, List.findSome?_map, lookup, List.map_findSome?]
    refine congrArg (List.findSome? · options.precedence) (funext fun source => ?_)
    have hget : source.other.get? config' store' key = source.get? config store key := by
      cases source with
      | config => exact hstore key
      | environment => exact hconfig key
    simp only [Function.comp_apply, hget]
    cases source.get? config store key with
    | none => rfl
    | some value => by_cases he : value = "" <;> simp [he]
  rw [scope, scope]
  congr
  funext key
  rw [hlookup, Option.map_map]
  rfl

end Config

/-! ## Passes -/

variable {σ τ : Type} [Store σ] [Store τ]

/-- Two passes say the same of a key. -/
structure Pass.SameFor (key : String) (p : Pass σ) (p' : Pass τ) : Prop where
  value : p'.record.get? key = p.record.get? key
  resolved : ∀ r : Resolved, r.key = key → (r ∈ p'.report.resolved ↔ r ∈ p.report.resolved)
  escaped : key ∈ p'.report.escaped ↔ key ∈ p.report.escaped
  truncated : p'.report.truncated.filter (·.origin = key) =
    p.report.truncated.filter (·.origin = key)

namespace Record

variable {record record' : Record} {store : σ} {store' : τ} {options options' : Options}
  {key raw raw' : String}

theorem sameFor_of_outcome_eq (hget : record.get? key = some raw)
    (hget' : record'.get? key = some raw')
    (h : record'.parsed.outcome store' options' key raw' =
      record.parsed.outcome store options key raw) :
    Pass.SameFor key (record.expand store options) (record'.expand store' options') where
  value := by rw [get?_expand, get?_expand, hget, hget', Option.map_some, Option.map_some, h]
  resolved := by
    rintro r rfl
    simp [mem_resolved_expand, hget, hget', h]
  escaped := by simp [mem_escaped_expand, hget, hget', h]
  truncated := by rw [filter_truncated_expand hget, filter_truncated_expand hget', h]

/-- **What becomes of a key hangs on the keys that it reaches.** If these stand for the same in two
situations, wherever it was found, the key gets the same value and the same references are cut in
it, in the same order. If the sources themselves have the same under these keys, empty texts aside,
the passes say the same of the key altogether. And a text that belongs to no key does not tell the
sources apart if contents and precedence are exchanged. -/
theorem expand_local (record record' : Record) (store : σ) (store' : τ)
    (options options' : Options) :
    (∀ key raw raw', record.get? key = some raw → record'.get? key = some raw' →
      Escape.ofText? raw' = Escape.ofText? raw → options'.maxDepth = options.maxDepth →
      (∀ j, record.parsed.Reaches store options key j →
        (record'.parsed.scope store' options').value? j =
          (record.parsed.scope store options).value? j) →
      (record'.expand store' options').record.get? key =
        (record.expand store options).record.get? key ∧
      (record'.expand store' options').report.truncated.filter (·.origin = key) =
        (record.expand store options).report.truncated.filter (·.origin = key)) ∧
    (∀ key, (record.get? key).isSome →
      (∀ j, record.parsed.Reaches store options key j →
        Config.SameOrBlank (record.get? j) (record'.get? j) ∧
        Config.SameOrBlank (Store.get? store j) (Store.get? store' j)) →
      Pass.SameFor key (record.expand store options) (record'.expand store' options)) ∧
    ((∀ key, record'.get? key = Store.get? store key) →
      (∀ key, Store.get? store' key = record.get? key) →
      ∀ text, record'.parsed.interpolate store'
          { options with environmentFirst := !options.environmentFirst } text =
        record.parsed.interpolate store options text) := by
  refine ⟨?_, ?_, ?_⟩
  · intro key raw raw' hget hget' hescape hdepth hvalue
    have houtcome := Config.outcome_eq_of_reaches hget hget' hescape hdepth hvalue
    constructor
    · rw [get?_expand, get?_expand, hget, hget', Option.map_some, Option.map_some, houtcome]
    · rw [filter_truncated_expand hget, filter_truncated_expand hget', houtcome]
  · intro key hsome h
    obtain ⟨raw, hget⟩ := Option.isSome_iff_exists.1 hsome
    have hget' : record'.get? key = some raw := by
      rcases (h key .refl).1 with heq | ⟨hnone, -⟩
      · rw [heq, hget]
      · rw [hget] at hnone
        cases hnone
    refine sameFor_of_outcome_eq hget hget' (Config.outcome_eq_of_sameOrBlank hget hget' ?_)
    intro j hj source
    cases source with
    | config => exact (h j hj).1
    | environment => exact (h j hj).2
  · intro hconfig hstore text
    rw [Config.interpolate, Config.interpolate, Config.scope_exchange hconfig hstore]

/-- A key that leads to another one, and both texts in the record. -/
def nearTexts : Record := .ofConfig (.ofList [("A", "$B"), ("B", "b")])

/-- A store in which the two keys have their texts. -/
def farTexts : Table String String := .ofList [("A", "$B"), ("B", "b")]

/-- The same keys with other texts. -/
def otherTexts : Record := .ofConfig (.ofList [("A", "a"), ("B", "")])

/-- The same texts, and a key that is of no concern to them. -/
def moreTexts : Record := .ofConfig (.ofList [("A", "$B"), ("B", "b"), ("C", "$A")])

/-- A store with the empty text under a key, which is as good as none. -/
def blankText : Table String String := .ofList [("B", "")]

theorem nearTexts_reaches {j : String}
    (h : nearTexts.parsed.Reaches (.empty : Table String String) {} "A" j) : j ∈ ["A", "B"] := by
  refine h.mem_of_closed (by decide) ?_
  rintro k hk _ ⟨value, r, hv, hr, rfl⟩
  have hvalues : ∀ k ∈ ["A", "B"], ∀ value ∈
      (nearTexts.parsed.scope (.empty : Table String String) {}).value? k,
      value = "$B" ∨ value = "b" := by decide
  have hA : Template.ofText "$B" = [.reference ⟨"B", .bare⟩] := by decide
  have hB : Template.ofText "b" = [.literal 'b'] := by decide
  rw [Reference.occurs_iff] at hr
  rcases hvalues k hk value hv with rfl | rfl <;> simp_all [Reference.default?]

/-- The two keys reach each other's texts only, be these in the record or in the store. -/
theorem nearTexts_local :
    (otherTexts.expand farTexts {}).record.get? "A" =
      (nearTexts.expand (.empty : Table String String) {}).record.get? "A" ∧
    Pass.SameFor "A" (nearTexts.expand (.empty : Table String String) {})
      (moreTexts.expand blankText {}) ∧
    (Record.ofConfig .empty).parsed.interpolate farTexts { environmentFirst := false } "$A" =
      nearTexts.parsed.interpolate (.empty : Table String String) {} "$A" := by
  have hfar : ∀ j ∈ ["A", "B"], (otherTexts.parsed.scope farTexts {}).value? j =
      (nearTexts.parsed.scope (.empty : Table String String) {}).value? j := by decide
  have hmore : ∀ j ∈ ["A", "B"],
      Config.SameOrBlank (nearTexts.get? j) (moreTexts.get? j) ∧
      Config.SameOrBlank (Store.get? (.empty : Table String String) j)
        (Store.get? blankText j) := by
    simp only [Config.SameOrBlank]
    decide
  have hreaches (j : String) := @nearTexts_reaches j
  refine ⟨?_, ?_, ?_⟩
  · exact ((expand_local nearTexts otherTexts (.empty : Table String String) farTexts {} {}).1
      "A" "$B" "a" (by decide) (by decide) (by decide) rfl fun j hj => hfar j (hreaches j hj)).1
  · exact (expand_local nearTexts moreTexts (.empty : Table String String) blankText {} {}).2.1
      "A" (by decide) fun j hj => hmore j (hreaches j hj)
  · exact (expand_local nearTexts (.ofConfig .empty) (.empty : Table String String) farTexts {}
      {}).2.2 (fun key => rfl) (fun key => rfl) "$A"

end Record

end VarSubst
