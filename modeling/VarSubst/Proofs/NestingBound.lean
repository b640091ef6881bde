import Mathlib.Algebra.BigOperators.Group.Finset.Basic
import Mathlib.Algebra.Order.BigOperators.Group.Finset
import VarSubst.Environment
import VarSubst.Proofs.Descent
import VarSubst.Proofs.Scan

/-!
# How deep texts nest

A step of a descent either takes a key off the path onto it, or goes on in a default, which has
fewer opening braces than the text it stands in. So the keys that stand for something and the
opening braces in their texts bound every descent (`Descent.length_le`). With a greater bound on
depth no reference is cut for its depth, and then the bound does not matter
(`Scope.expandWithin_eq_of_avoids`).
-/

namespace VarSubst

def openBraces (text : String) : Nat := text.toList.count '{'

/-- The opening braces in the text that a key stands for. -/
def Scope.openBraces (s : Scope) (key : String) : Nat := (s.value? key).elim 0 VarSubst.openBraces

theorem Reference.openBraces_lt_render {r : Reference} {body : String}
    (h : r.default? = some body) : openBraces body < r.render.count '{' := by
  obtain ⟨key, form⟩ := r
  cases form with
  | bare | braced => cases h
  | withDefault colon body =>
    cases h
    obtain ⟨cs, hrender, hbody⟩ : ∃ cs, render ⟨key, .withDefault colon body⟩ = '$' :: '{' :: cs ∧
        body.toList.Sublist cs := by
      have hbody := List.sublist_append_left body.toList ['}']
      cases colon with
      | true => exact ⟨_, rfl, ((hbody.cons _).cons _).trans (List.sublist_append_right _ _)⟩
      | false => exact ⟨_, rfl, (hbody.cons _).trans (List.sublist_append_right _ _)⟩
    rw [hrender, List.count_cons_of_ne (by decide), List.count_cons_self]
    exact Nat.lt_succ_of_le (hbody.count_le _)

/-- A default has fewer opening braces than the text in which it stands. -/
theorem openBraces_default_lt {r : Reference} {text body : String}
    (hr : .reference r ∈ Template.ofText text) (h : r.default? = some body) :
    openBraces body < openBraces text := by
  have hin := Template.render_infix_of_mem hr
  rw [Template.ofText, Template.render_ofChars] at hin
  exact Nat.lt_of_lt_of_le (Reference.openBraces_lt_render h) (hin.count_le _)

/-! ## The measure -/

namespace Scope

variable {s : Scope} {keys : Finset String} {f g : Frame} {n : Nat}

/-- How many keys there are and how many opening braces in their texts. -/
def nesting (s : Scope) (keys : Finset String) : Nat := keys.card + ∑ key ∈ keys, s.openBraces key

/-- What is left for a descent: the opening braces in the text at hand, and the keys off the path
with the opening braces in their texts. -/
def room (s : Scope) (keys : Finset String) (f : Frame) : Nat :=
  VarSubst.openBraces f.text + s.nesting {key ∈ keys | key ∉ f.path}

theorem nesting_eq_sum : s.nesting keys = ∑ key ∈ keys, (1 + s.openBraces key) := by
  rw [nesting, Finset.sum_add_distrib, Finset.card_eq_sum_ones]

theorem nesting_erase {key : String} (h : key ∈ keys) :
    1 + s.openBraces key + s.nesting (keys.erase key) = s.nesting keys := by
  rw [nesting_eq_sum, nesting_eq_sum]
  exact Finset.add_sum_erase keys (fun key => 1 + s.openBraces key) h

theorem nesting_filter_le (keys : Finset String) (p : String → Prop) [DecidablePred p] :
    s.nesting {key ∈ keys | p key} ≤ s.nesting keys := by
  rw [nesting_eq_sum, nesting_eq_sum]
  exact Finset.sum_le_sum_of_subset (Finset.filter_subset p keys)

/-- Following a key takes it, and the braces in its text, out of what is left. -/
theorem room_value {path : List String} {key value : String} (hkey : key ∈ keys)
    (hmem : key ∉ path) (hv : s.value? key = some value) :
    s.room keys ⟨path ++ [key], value⟩ + 1 = s.nesting {key ∈ keys | key ∉ path} := by
  have herase : ({k ∈ keys | k ∉ path ++ [key]} : Finset String) =
      ({k ∈ keys | k ∉ path} : Finset String).erase key := by
    ext k
    simp only [Finset.mem_filter, Finset.mem_erase, List.mem_append, List.mem_singleton]
    tauto
  have hmem : key ∈ ({k ∈ keys | k ∉ path} : Finset String) := Finset.mem_filter.2 ⟨hkey, hmem⟩
  have hsum := s.nesting_erase hmem
  have hbraces : s.openBraces key = VarSubst.openBraces value := by rw [openBraces, hv]; rfl
  simp only [room, herase]
  omega

end Scope

variable {s : Scope} {keys : Finset String} {f g : Frame} {n : Nat}

theorem Frame.Step.room_lt (hkeys : ∀ key, key ∈ keys ↔ (s.value? key).isSome)
    (h : Frame.Step s.value? f g) : s.room keys g < s.room keys f := by
  cases h with
  | value hr hmem hv =>
    have hroom := s.room_value ((hkeys _).2 (Option.isSome_of_eq_some hv)) hmem hv
    simp only [Scope.room] at hroom ⊢
    omega
  | default hr hd =>
    have := openBraces_default_lt hr hd
    simp only [Scope.room]
    omega

/-- A descent is no longer than what was left for it at its start. -/
theorem Descent.length_le (hkeys : ∀ key, key ∈ keys ↔ (s.value? key).isSome)
    (H : Descent s.value? n f g) : n ≤ s.room keys f := by
  have h : 0 + n + s.room keys g ≤ s.room keys f :=
    H.preserves (P := fun n g => n + s.room keys g ≤ s.room keys f)
      (fun hs h => by have := hs.room_lt hkeys; omega) (by omega)
  omega

/-! ## Depth that is not used up -/

namespace Scope

variable {s s' : Scope} {inner inner' : List String → List Char → Expansion}

/-- Keys expand alike if the texts do in which no reference is too deep. -/
theorem expandKey_eq_of_avoids (hvalue : s'.value? = s.value?)
    (hinner : ∀ path text, (inner path text).Avoids Event.isDepthCut →
      inner' path text = inner path text)
    {path : List String} {key : String}
    (h : (s.expandKey inner path key).Avoids Event.isDepthCut) :
    s'.expandKey inner' path key = s.expandKey inner path key := by
  apply expandKey_congr (congrFun hvalue key)
  intro value hmem hv
  rw [expandKey_of_some hmem hv] at h
  exact hinner _ _ h

theorem expandReference_eq_of_avoids (hvalue : s'.value? = s.value?)
    (hinner : ∀ path text, (inner path text).Avoids Event.isDepthCut →
      inner' path text = inner path text)
    {path : List String} {r : Reference}
    (h : (s.expandReference inner path r).Avoids Event.isDepthCut) :
    s'.expandReference inner' path r = s.expandReference inner path r := by
  have hkey : (s.expandKey inner path r.key).Avoids Event.isDepthCut := by
    rcases s.expandReference_cases inner path r with ⟨-, hr⟩ | ⟨body, -, -, hr⟩
    · rwa [hr] at h
    · rw [hr] at h
      exact (Expansion.avoids_append.1 h).1
  apply expandReference_congr (expandKey_eq_of_avoids hvalue hinner hkey)
  intro body he hd
  rw [expandReference_eq_default he hd] at h
  exact hinner _ _ (Expansion.avoids_append.1 h).2

/-- Where no reference is too deep, texts expand alike if they may nest deeper. -/
theorem expandWithin_eq_of_avoids (hvalue : s'.value? = s.value?) {depth depth' : Nat}
    (hle : depth ≤ depth') {path : List String} {text : List Char}
    (h : (s.expandWithin depth path text).Avoids Event.isDepthCut) :
    s'.expandWithin depth' path text = s.expandWithin depth path text := by
  induction depth generalizing depth' path text with
  | zero =>
    rw [expandWithin_eq_fill, expandWithin_eq_fill]
    apply Expansion.fill_congr
    intro r hr
    exact absurd (Expansion.avoids_fill.1 h r hr) (Expansion.not_avoids_singleton rfl)
  | succ depth ih =>
    obtain ⟨depth', rfl⟩ : ∃ d, depth' = d + 1 := ⟨depth' - 1, by omega⟩
    apply Expansion.fill_congr
    intro r hr
    exact expandReference_eq_of_avoids hvalue (fun path text => ih (Nat.le_of_succ_le_succ hle))
      (Expansion.avoids_fill.1 h r hr)

/-- If the depth exceeds what is left for a descent, no reference is cut for its depth. -/
theorem avoids_of_room_lt (hkeys : ∀ key, key ∈ keys ↔ (s.value? key).isSome)
    {path : List String} {text : String} (h : s.room keys ⟨path, text⟩ < s.maxDepth.toNat) :
    (s.expand path text).Avoids Event.isDepthCut := by
  intro event hevent
  obtain ⟨n, left, f, hn, H, hemit⟩ := exists_descent hevent
  cases hemit with
  | depth =>
    have := H.length_le hkeys
    omega
  | cycle | unresolved => rfl

/-- Two bounds on depth that both exceed what is left for a descent make no difference. -/
theorem expand_eq_of_room_lt (s s' : Scope) (hvalue : s'.value? = s.value?)
    (hkeys : ∀ key, key ∈ keys ↔ (s.value? key).isSome) {path : List String} {text : String}
    (h : s.room keys ⟨path, text⟩ < s.maxDepth.toNat)
    (h' : s.room keys ⟨path, text⟩ < s'.maxDepth.toNat) :
    s'.expand path text = s.expand path text := by
  have hroom : s'.room keys ⟨path, text⟩ = s.room keys ⟨path, text⟩ := by
    simp only [room, nesting, openBraces, hvalue]
  -- The shallower of the two expansions is the one known to stay above its bound.
  rcases Nat.le_total s.maxDepth.toNat s'.maxDepth.toNat with hle | hle
  · exact expandWithin_eq_of_avoids hvalue hle (avoids_of_room_lt hkeys h)
  · refine (expandWithin_eq_of_avoids hvalue.symm hle (avoids_of_room_lt ?_ (hroom ▸ h'))).symm
    rwa [hvalue]

end Scope

/-! ## Passes and interpolation -/

variable {σ : Type} [Store σ]

namespace Config

variable {config : Config} {store : σ} {options : Options}

/-- The keys that stand for something are finitely many if the store has finitely many. -/
theorem exists_keys (names : List String)
    (h : ∀ key, (Store.get? store key).isSome → key ∈ names) :
    ∃ keys : Finset String, ∀ key,
      key ∈ keys ↔ (config.lookup store options key).isSome := by
  refine ⟨{key ∈ (config.keys ++ names).toFinset | (config.lookup store options key).isSome},
    fun key => ?_⟩
  simp only [Finset.mem_filter, List.mem_toFinset, List.mem_append, and_iff_right_iff_imp]
  intro hsome
  by_contra hnot
  obtain ⟨hconfig, hstore⟩ := not_or.1 hnot
  have hnone : config.lookup store options key = none := by
    apply lookup_eq_none_iff.2
    intro source value hvalue
    cases source with
    | config => exact absurd (List.mem_map_of_mem (Table.mem_of_find? hvalue)) hconfig
    | environment => exact absurd (h key (Option.isSome_of_eq_some hvalue)) hstore
  rw [hnone] at hsome
  cases hsome

theorem exists_keys_table (config : Config) (store : Table String String) (options : Options) :
    ∃ keys : Finset String, ∀ key,
      key ∈ keys ↔ (config.lookup store options key).isSome := by
  apply exists_keys store.keys
  intro key hsome
  obtain ⟨value, hvalue⟩ := Option.isSome_iff_exists.1 hsome
  exact List.mem_map_of_mem (Table.mem_of_find? hvalue)

theorem exists_keys_environment (config : Config) (store : Environment) (options : Options) :
    ∃ keys : Finset String, ∀ key,
      key ∈ keys ↔ (config.lookup store options key).isSome := by
  have hnames : ∀ key, (Store.get? store key).isSome →
      key ∈ store.entries.keys.filterMap Bytes.text? := by
    intro key hsome
    obtain ⟨value, hvalue⟩ := Option.isSome_iff_exists.1 hsome
    change (if Environment.canName key then _ else none) = _ at hvalue
    split at hvalue
    · obtain ⟨bytes, hbytes, -⟩ := Option.bind_eq_some_iff.1 hvalue
      exact List.mem_filterMap.2
        ⟨_, List.mem_map_of_mem (Table.mem_of_find? hbytes), Bytes.text?_ofText key⟩
    · cases hvalue
  exact exists_keys _ hnames

theorem isSome_value?_iff {keys : Finset String}
    (hkeys : ∀ key, key ∈ keys ↔ (config.lookup store options key).isSome) (key : String) :
    key ∈ keys ↔ ((config.scope store options).value? key).isSome := by
  rw [hkeys, scope, Option.isSome_map]

theorem room_selected_le {keys : Finset String} {key raw : String}
    (hkeys : ∀ key, key ∈ keys ↔ (config.lookup store options key).isSome)
    (hget : config.get? key = some raw) :
    (config.scope store options).room keys ⟨[key], config.selected store options key raw⟩ ≤
      (config.scope store options).nesting keys := by
  rcases value?_or_selected_eq_empty store options hget with hv | ⟨-, he⟩
  · obtain ⟨found, hfound, -⟩ := Option.map_eq_some_iff.1 hv
    have hroom := Scope.room_value ((hkeys key).2 (Option.isSome_of_eq_some hfound))
      List.not_mem_nil hv
    have hle := (config.scope store options).nesting_filter_le keys (· ∉ [])
    rw [List.nil_append] at hroom
    omega
  · rw [he]
    exact (Nat.zero_add _).trans_le (Scope.nesting_filter_le keys (· ∉ [key]))

theorem room_nil (s : Scope) (keys : Finset String) (text : String) :
    s.room keys ⟨[], text⟩ = s.nesting keys + openBraces text := by
  simp only [Scope.room, List.not_mem_nil, not_false_eq_true, Finset.filter_true]
  exact Nat.add_comm _ _

end Config

/-- A key expands alike under two bounds that exceed what there is to descend into. -/
theorem Config.outcome_eq_of_nesting_lt {config : Config} {store : σ} {options : Options}
    {keys : Finset String} {key raw : String} {maxDepth : UInt64}
    (hkeys : ∀ key, key ∈ keys ↔ (config.lookup store options key).isSome)
    (hget : config.get? key = some raw)
    (h : (config.scope store options).nesting keys < options.maxDepth.toNat)
    (h' : (config.scope store options).nesting keys < maxDepth.toNat) :
    config.outcome store { options with maxDepth } key raw =
      config.outcome store options key raw := by
  have hroom := room_selected_le hkeys hget
  refine outcome_congr rfl ?_
  intro _
  exact Scope.expand_eq_of_room_lt (config.scope store options)
    (config.scope store { options with maxDepth }) rfl (isSome_value?_iff hkeys)
    (Nat.lt_of_le_of_lt hroom h) (Nat.lt_of_le_of_lt hroom h')

/-- **The guard against cycles alone bounds expansion.** `keys` are the keys that stand for
something. No descent is deeper than their number and that of the opening braces in their texts (and
in the text at hand, where it belongs to no key). With a bound on depth that exceeds this no
reference is cut for its depth, and all such bounds give the same pass and the same text. -/
theorem Record.depth_le_nesting (record : Record) (store : σ) (options : Options)
    (keys : Finset String)
    (hkeys : ∀ key, key ∈ keys ↔ (record.parsed.lookup store options key).isSome) :
    (∀ key raw, record.get? key = some raw →
      ∀ n f, Descent (record.parsed.scope store options).value? n
        ⟨[key], record.parsed.selected store options key raw⟩ f →
        n ≤ (record.parsed.scope store options).nesting keys) ∧
    ((record.parsed.scope store options).nesting keys < options.maxDepth.toNat →
      (∀ t ∈ (record.expand store options).report.truncated, ∀ limit, t.cause ≠ .depth limit) ∧
      ∀ maxDepth : UInt64, (record.parsed.scope store options).nesting keys < maxDepth.toNat →
        record.expand store { options with maxDepth } = record.expand store options) ∧
    ∀ text,
      (∀ n f, Descent (record.parsed.scope store options).value? n ⟨[], text⟩ f →
        n ≤ (record.parsed.scope store options).nesting keys + openBraces text) ∧
      ((record.parsed.scope store options).nesting keys + openBraces text <
          options.maxDepth.toNat →
        ((record.parsed.scope store options).expand [] text).Avoids Event.isDepthCut ∧
        ∀ maxDepth : UInt64,
          (record.parsed.scope store options).nesting keys + openBraces text < maxDepth.toNat →
          record.parsed.interpolate store { options with maxDepth } text =
            record.parsed.interpolate store options text) := by
  have hvalued := Config.isSome_value?_iff hkeys
  refine ⟨?_, ?_, ?_⟩
  · intro key raw hget n f H
    exact Nat.le_trans (H.length_le hvalued) (Config.room_selected_le hkeys hget)
  · intro h
    constructor
    · intro t ht limit hcause
      obtain ⟨raw, hget, -, hevent⟩ := mem_truncated_expand.1 ht
      have hroom := Config.room_selected_le hkeys hget
      have h := Scope.avoids_of_room_lt hvalued (Nat.lt_of_le_of_lt hroom h) _ hevent
      rw [hcause] at h
      cases h
    · intro maxDepth h'
      exact expand_congr fun key raw hget => Config.outcome_eq_of_nesting_lt hkeys hget h h'
  · intro text
    rw [← Config.room_nil]
    constructor
    · intro n f H
      exact H.length_le hvalued
    · intro h
      refine ⟨Scope.avoids_of_room_lt hvalued h, ?_⟩
      intro maxDepth h'
      have hexpand := Scope.expand_eq_of_room_lt (record.parsed.scope store options)
        (record.parsed.scope store { options with maxDepth }) rfl hvalued h h'
      rw [Config.interpolate, Config.interpolate, hexpand]

/-- Two keys that lead to each other, one of them through a reference with a default. -/
def Record.mutualKeys : Record := .ofConfig (.ofList [("A", "$B"), ("B", "${A:-x}")])

theorem Record.mutualKeys_expand :
    (∀ key, key ∈ ({"A", "B"} : Finset String) ↔
      (mutualKeys.parsed.lookup (.empty : Table String String) { maxDepth := 4 } key).isSome) ∧
    (mutualKeys.parsed.scope (.empty : Table String String) { maxDepth := 4 }).nesting {"A", "B"} =
      3 ∧
    (∀ t ∈ (mutualKeys.expand (.empty : Table String String)
      { maxDepth := 4 }).report.truncated, ∀ limit, t.cause ≠ .depth limit) ∧
    mutualKeys.expand (.empty : Table String String) { maxDepth := 0xFFFFFFFFFFFFFFFF } =
      mutualKeys.expand (.empty : Table String String) { maxDepth := 4 } := by
  have hkeys : ∀ key, key ∈ ({"A", "B"} : Finset String) ↔
      (mutualKeys.parsed.lookup (.empty : Table String String) { maxDepth := 4 } key).isSome := by
    intro key
    by_cases hA : key = "A"
    · rw [hA]; decide
    by_cases hB : key = "B"
    · rw [hB]; decide
    have hnone : mutualKeys.parsed.lookup (.empty : Table String String) { maxDepth := 4 } key =
        none := by
      apply Config.lookup_eq_none_iff.2
      intro source value hvalue
      cases source with
      | config => simp [Source.get?, mutualKeys, ofConfig, Table.ofList, Table.get?_insert, hA, hB]
          at hvalue
      | environment => cases hvalue
    simp [hA, hB, hnone]
  have hnesting : (mutualKeys.parsed.scope (.empty : Table String String)
      { maxDepth := 4 }).nesting {"A", "B"} = 3 := by decide
  obtain ⟨hcause, hexpand⟩ :=
    (mutualKeys.depth_le_nesting (.empty : Table String String) { maxDepth := 4 } _ hkeys).2.1
      (by rw [hnesting]; decide)
  exact ⟨hkeys, hnesting, hcause, hexpand 0xFFFFFFFFFFFFFFFF (by rw [hnesting]; decide)⟩

end VarSubst
