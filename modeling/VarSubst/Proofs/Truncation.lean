import Mathlib.Data.List.Chain
import Mathlib.Data.List.Nodup
import Mathlib.Logic.Relation
import VarSubst.Proofs.Descent

/-!
# Cut references

Every reference that a pass reports as cut was cut for the reason it gives
(`Record.genuine_of_mem_truncated`). The path of a cut cycle is a chain of keys whose texts refer to
one another and back to the key that was met again, so it is a cycle that the expanded key leads to;
a reference that was cut for its depth stands at the end of a chain of texts of just that length.
`Trace` is what the steps of a descent preserve.
-/

namespace VarSubst

/-- A reference stands in a text or in the default of a reference that occurs in it. -/
inductive Reference.Occurs : Reference → String → Prop
  | here {r text} : .reference r ∈ Template.ofText text → Occurs r text
  | within {r r' text body} : .reference r' ∈ Template.ofText text → r'.default? = some body →
    Occurs r body → Occurs r text

/-- The text that a key stands for holds a reference to another key. -/
def RefersTo (value? : String → Option String) (key key' : String) : Prop :=
  ∃ value, ∃ r : Reference, value? key = some value ∧ r.Occurs value ∧ r.key = key'

/-- A text holds a reference that the other text is the value or the default of. -/
def LeadsTo (value? : String → Option String) (text text' : String) : Prop :=
  ∃ r, .reference r ∈ Template.ofText text ∧
    (value? r.key = some text' ∨ r.default? = some text')

/-- `path` goes from `origin` on from key to key, without repeats, and back to `key`, which is on
it. -/
structure IsCycle (value? : String → Option String) (origin key : String) (path : List String) :
    Prop where
  head : path.head? = some origin
  nodup : path.Nodup
  valued : ∀ k ∈ path, (value? k).isSome
  chain : path.IsChain (RefersTo value?)
  last : ∃ k, path.getLast? = some k ∧ RefersTo value? k key
  mem : key ∈ path

/-- From `text` there is a chain of `n` steps to a text with a reference to `key`. -/
def IsDeep (value? : String → Option String) (n : Nat) (text key : String) : Prop :=
  ∃ texts : List String, texts.length = n + 1 ∧ texts.head? = some text ∧
    texts.IsChain (LeadsTo value?) ∧
    ∃ last r, texts.getLast? = some last ∧ .reference r ∈ Template.ofText last ∧ r.key = key

variable {value? : String → Option String}

/-- A chain of keys leads from the first to the last. -/
theorem reflTransGen_of_isChain {r : String → String → Prop} {path : List String} {a b : String}
    (h : path.IsChain r) (hhead : path.head? = some a) (hlast : path.getLast? = some b) :
    Relation.ReflTransGen r a b := by
  have hne : path ≠ [] := fun he => nomatch he ▸ hhead
  have hpath := List.relationReflTransGen_of_exists_isChain path h hne
  rw [List.head?_eq_some_head hne] at hhead
  rw [List.getLast?_eq_some_getLast hne] at hlast
  rwa [Option.some.inj hhead, Option.some.inj hlast] at hpath

/-! ## Cycles -/

namespace IsCycle

variable {origin key : String} {path : List String}

/-- The key that was met again leads back to itself. -/
theorem transGen (H : IsCycle value? origin key path) :
    Relation.TransGen (RefersTo value?) key key := by
  obtain ⟨before, after, rfl⟩ := List.append_of_mem H.mem
  obtain ⟨k, hlast, hback⟩ := H.last
  rw [List.getLast?_append_of_ne_nil _ (List.cons_ne_nil _ _)] at hlast
  exact .tail' (reflTransGen_of_isChain H.chain.right_of_append rfl hlast) hback

/-- The origin leads to the key that was met again. -/
theorem reflTransGen (H : IsCycle value? origin key path) :
    Relation.ReflTransGen (RefersTo value?) origin key := by
  obtain ⟨before, after, rfl⟩ := List.append_of_mem H.mem
  have hhead := H.head
  have hchain := H.chain
  rw [List.append_cons] at hhead hchain
  rw [List.head?_append_of_ne_nil _ (List.concat_ne_nil _ _)] at hhead
  exact reflTransGen_of_isChain hchain.left_of_append hhead List.getLast?_concat

end IsCycle

/-! ## Traces -/

/-- The path of a frame that was reached in `n` steps from the text of `origin`: the last of its
keys stands for a text in which all references of the frame occur. -/
structure Trace (value? : String → Option String) (origin : String) (n : Nat) (f : Frame) :
    Prop where
  head : f.path.head? = some origin
  nodup : f.path.Nodup
  length_le : f.path.length ≤ n + 1
  valued : ∀ k ∈ f.path, (value? k).isSome
  chain : f.path.IsChain (RefersTo value?)
  last : ∃ k value, f.path.getLast? = some k ∧ value? k = some value ∧
    ∀ r : Reference, r.Occurs f.text → r.Occurs value

namespace Trace

variable {origin : String} {n : Nat} {f g : Frame}

theorem start {value : String} (hv : value? origin = some value) :
    Trace value? origin 0 ⟨[origin], value⟩ where
  head := rfl
  nodup := List.nodup_singleton origin
  length_le := Nat.le_refl 1
  valued k hk := by
    cases List.mem_singleton.1 hk
    exact Option.isSome_of_eq_some hv
  chain := .singleton origin
  last := ⟨origin, value, rfl, hv, fun _ h => h⟩

/-- The last key of the path refers to every key that the frame refers to. -/
theorem refersTo (H : Trace value? origin n f) {r : Reference}
    (hr : .reference r ∈ Template.ofText f.text) :
    ∃ k, f.path.getLast? = some k ∧ RefersTo value? k r.key := by
  obtain ⟨k, value, hlast, hv, hoccurs⟩ := H.last
  exact ⟨k, hlast, value, r, hv, hoccurs r (.here hr), rfl⟩

theorem step (hs : Frame.Step value? f g) (H : Trace value? origin n f) :
    Trace value? origin (n + 1) g := by
  cases hs with
  | @value path text r value hr hmem hv =>
    obtain ⟨k, hlast, hrefers⟩ := H.refersTo hr
    have hne : path ≠ [] := fun h => nomatch h ▸ hlast
    exact {
      head := (List.head?_append_of_ne_nil _ hne).trans H.head
      nodup := List.nodup_append.2 ⟨H.nodup, List.nodup_singleton _, by
        rintro a ha b hb rfl
        cases List.mem_singleton.1 hb
        exact hmem ha⟩
      length_le := by
        have := H.length_le
        simp only [List.length_append, List.length_singleton] at *
        omega
      valued := fun k hk => by
        rcases List.mem_append.1 hk with hk | hk
        · exact H.valued k hk
        · cases List.mem_singleton.1 hk
          exact Option.isSome_of_eq_some hv
      chain := by
        refine List.isChain_append.2 ⟨H.chain, .singleton _, ?_⟩
        intro x hx y hy
        cases hx.symm.trans hlast
        cases hy
        exact hrefers
      last := ⟨r.key, value, List.getLast?_concat, hv, fun _ h => h⟩ }
  | default hr hd =>
    obtain ⟨k, value, hlast, hv, hoccurs⟩ := H.last
    exact { H with
      length_le := Nat.le_succ_of_le H.length_le
      last := ⟨k, value, hlast, hv, fun r h => hoccurs r (.within hr hd h)⟩ }

/-- The origin leads to every key that the frame refers to. -/
theorem transGen (H : Trace value? origin n f) {r : Reference}
    (hr : .reference r ∈ Template.ofText f.text) :
    Relation.TransGen (RefersTo value?) origin r.key := by
  obtain ⟨k, hlast, hrefers⟩ := H.refersTo hr
  exact .tail' (reflTransGen_of_isChain H.chain H.head hlast) hrefers

/-- A key of the path to which the frame refers closes a cycle. -/
theorem isCycle (H : Trace value? origin n f) {r : Reference}
    (hr : .reference r ∈ Template.ofText f.text) (hmem : r.key ∈ f.path) :
    IsCycle value? origin r.key f.path where
  head := H.head
  nodup := H.nodup
  valued := H.valued
  chain := H.chain
  last := H.refersTo hr
  mem := hmem

end Trace

/-- A descent passes through as many texts as it has steps. -/
theorem Descent.exists_texts {n : Nat} {f g : Frame} (H : Descent value? n f g) :
    ∃ texts : List String, texts.length = n + 1 ∧ texts.head? = some f.text ∧
      texts.IsChain (LeadsTo value?) ∧ texts.getLast? = some g.text := by
  induction H with
  | @refl f => exact ⟨[f.text], rfl, rfl, .singleton _, rfl⟩
  | @head n f g h hs _ ih =>
    obtain ⟨texts, hlength, hhead, hchain, hlast⟩ := ih
    have hleads : LeadsTo value? f.text g.text := by
      cases hs with
      | value hr _ hv => exact ⟨_, hr, .inl hv⟩
      | default hr hd => exact ⟨_, hr, .inr hd⟩
    refine ⟨f.text :: texts, by rw [List.length_cons, hlength], rfl, ?_, ?_⟩
    · refine List.isChain_cons.2 ⟨?_, hchain⟩
      intro text htext
      cases htext.symm.trans hhead
      exact hleads
    · rw [List.getLast?_cons, hlast]
      rfl

/-! ## Passes -/

variable {σ : Type} [Store σ]

/-- What a cut of a reference to `key` says about the text in use for `origin`. -/
def Config.Genuine (config : Config) (store : σ) (options : Options) (origin text key : String) :
    Cut → Prop
  | .cycle path => IsCycle (config.scope store options).value? origin key path ∧
      path.length ≤ options.maxDepth.toNat
  | .depth limit => limit = options.maxDepth ∧
      IsDeep (config.scope store options).value? limit.toNat text key

/-- Whatever is recorded for a configured key, it is recorded at the end of a trace. -/
theorem Config.exists_trace {config : Config} {store : σ} {options : Options} {origin raw : String}
    {event : Event} (hget : config.get? origin = some raw)
    (h : event ∈ (config.expansion store options origin raw).events) :
    ∃ n left f, options.maxDepth.toNat = n + left ∧
      Descent (config.scope store options).value? n
        ⟨[origin], config.selected store options origin raw⟩ f ∧
      Trace (config.scope store options).value? origin n f ∧
      (config.scope store options).Emits left f event := by
  rcases value?_or_selected_eq_empty store options hget with hv | ⟨-, he⟩
  · obtain ⟨n, left, f, hn, H, hemit⟩ := Scope.exists_descent h
    have htrace : Trace (config.scope store options).value? origin (0 + n) f :=
      H.preserves (P := Trace (config.scope store options).value? origin) Trace.step (.start hv)
    rw [Nat.zero_add] at htrace
    exact ⟨n, left, f, hn, H, htrace, hemit⟩
  · rw [expansion, he, Scope.expand_empty] at h
    exact nomatch h

theorem Config.genuine_of_mem_events {config : Config} {store : σ} {options : Options}
    {origin raw key : String} {cause : Cut} (hget : config.get? origin = some raw)
    (h : .cut key cause ∈ (config.expansion store options origin raw).events) :
    config.Genuine store options origin (config.selected store options origin raw) key cause := by
  obtain ⟨n, left, f, hn, H, htrace, hemit⟩ := exists_trace hget h
  cases hemit with
  | depth hr =>
    obtain ⟨texts, hlength, hhead, hchain, hlast⟩ := H.exists_texts
    refine ⟨rfl, texts, ?_, hhead, hchain, _, _, hlast, hr, rfl⟩
    rw [hlength]
    exact congrArg (· + 1) hn.symm
  | @cycle left path text r hr hmem =>
    have hlength : path.length ≤ n + 1 := htrace.length_le
    exact ⟨htrace.isCycle hr hmem, by omega⟩

namespace Record

variable {record : Record} {store : σ} {options : Options}

theorem genuine_of_mem_truncated {t : Truncation}
    (ht : t ∈ (record.expand store options).report.truncated) :
    ∃ raw, record.get? t.origin = some raw ∧ ¬['\\', '$'] <:+: raw.toList ∧
      record.parsed.Genuine store options t.origin
        (record.parsed.selected store options t.origin raw) t.key t.cause := by
  obtain ⟨raw, hget, hraw, hevent⟩ := mem_truncated_expand.1 ht
  exact ⟨raw, hget, hraw, Config.genuine_of_mem_events hget hevent⟩

/-- A cut cycle is one that the expanded key leads to. -/
theorem cycle_of_mem_truncated {t : Truncation} {path : List String}
    (ht : t ∈ (record.expand store options).report.truncated) (hcause : t.cause = .cycle path) :
    Relation.ReflTransGen (RefersTo (record.parsed.scope store options).value?) t.origin t.key ∧
      Relation.TransGen (RefersTo (record.parsed.scope store options).value?) t.key t.key := by
  obtain ⟨raw, -, -, hgenuine⟩ := genuine_of_mem_truncated ht
  rw [hcause] at hgenuine
  exact ⟨hgenuine.1.reflTransGen, hgenuine.1.transGen⟩

/-- **Cuts are genuine.** A pass cuts references only in the texts in use for keys without escapes,
a cycle only where there is one, and for its depth only what stands that deep. So keys that lead to
no cycle have none cut, and if that is all of them, a strict pass does not refuse the record for a
cycle. -/
theorem truncated_genuine (record : Record) (store : σ) (options : Options) :
    (∀ t ∈ (record.expand store options).report.truncated,
      (∃ raw, record.get? t.origin = some raw ∧ ¬['\\', '$'] <:+: raw.toList ∧
        record.parsed.Genuine store options t.origin
          (record.parsed.selected store options t.origin raw) t.key t.cause) ∧
      ∀ path, t.cause = .cycle path →
        Relation.ReflTransGen (RefersTo (record.parsed.scope store options).value?)
          t.origin t.key ∧
        Relation.TransGen (RefersTo (record.parsed.scope store options).value?) t.key t.key) ∧
    (∀ origin,
      (∀ key, Relation.ReflTransGen (RefersTo (record.parsed.scope store options).value?)
          origin key →
        ¬Relation.TransGen (RefersTo (record.parsed.scope store options).value?) key key) →
      ∀ t ∈ (record.expand store options).report.truncated, t.origin = origin →
        ∀ path, t.cause ≠ .cycle path) ∧
    ((∀ origin raw, record.get? origin = some raw → ¬['\\', '$'] <:+: raw.toList →
      ∀ key, Relation.ReflTransGen (RefersTo (record.parsed.scope store options).value?)
          origin key →
        ¬Relation.TransGen (RefersTo (record.parsed.scope store options).value?) key key) →
      ∀ key path, record.expandStrictly store options ≠ .error (.cycle key path)) := by
  refine ⟨fun t ht => ⟨genuine_of_mem_truncated ht, fun path => cycle_of_mem_truncated ht⟩,
    ?_, ?_⟩
  · rintro origin hacyclic t ht rfl path hcause
    obtain ⟨hreach, hcycle⟩ := cycle_of_mem_truncated ht hcause
    exact hacyclic t.key hreach hcycle
  · intro hacyclic key path hrefused
    rcases expandStrictly_eq_error hrefused with ⟨e, _, hcause⟩ | ⟨t, hhead, hcause⟩
    · cases hcause
    · have ht := List.mem_of_mem_head? hhead
      obtain ⟨raw, hget, hraw, -⟩ := genuine_of_mem_truncated ht
      unfold Refusal.ofTruncation at hcause
      split at hcause
      · next path' hpath =>
        obtain ⟨hreach, hcycle⟩ := cycle_of_mem_truncated ht hpath
        exact hacyclic t.origin raw hget hraw t.key hreach hcycle
      · cases hcause

/-- A key that stands for a reference to itself. -/
def selfReference : Record := .ofConfig (.ofList [("A", "$A")])

theorem selfReference_cycle :
    ⟨"A", "A", .cycle ["A"]⟩ ∈ (selfReference.expand (.empty : Table String String)
      { maxDepth := 2 }).report.truncated ∧
    Relation.TransGen (RefersTo (selfReference.parsed.scope (.empty : Table String String)
      { maxDepth := 2 }).value?) "A" "A" := by
  have ht : (⟨"A", "A", .cycle ["A"]⟩ : Truncation) ∈ (selfReference.expand
      (.empty : Table String String) { maxDepth := 2 }).report.truncated := by decide
  have hgenuine := (truncated_genuine selfReference (.empty : Table String String)
    { maxDepth := 2 }).1 _ ht
  exact ⟨ht, (hgenuine.2 ["A"] rfl).2⟩

end Record

end VarSubst
