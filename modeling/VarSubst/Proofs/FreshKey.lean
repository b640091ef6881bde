import VarSubst.Proofs.Locality
import VarSubst.Session

/-!
# Texts and fresh keys

A text that belongs to no key expands as it does for a new key to which no text refers. The new key
stands on the path all the time, but a path matters only for the keys that are asked for
(`Scope.Agree.text_expandWithin_eq`), and the entry in the record is never looked up. So a key can be
given to a text without a change to the text's value or to the other keys
(`Record.expand_withEntry`).
-/

namespace VarSubst

/-! ## Paths -/

theorem Expansion.text_fill_congr {f g : Reference → Expansion} {t : Template}
    (h : ∀ r, .reference r ∈ t → (f r).text = (g r).text) : (fill f t).text = (fill g t).text := by
  induction t with
  | nil => rfl
  | cons segment t ih =>
    have ih := ih fun r hr => h r (.tail _ hr)
    cases segment with
    | literal c => rw [fill_literal, fill_literal, ih]
    | reference r => rw [fill_reference, fill_reference, text_append, text_append, h r (.head _), ih]

namespace Scope

variable {s s' : Scope} {inner inner' : List String → List Char → Expansion}
  {path path' : List String}

/-- References come to the same text if their keys do and their defaults do. -/
theorem text_expandReference_congr {r : Reference}
    (hkey : (s'.expandKey inner' path' r.key).text = (s.expandKey inner path r.key).text)
    (hdefault : ∀ body, r.default? = some body →
      (inner' path' body.toList).text = (inner path body.toList).text) :
    (s'.expandReference inner' path' r).text = (s.expandReference inner path r).text := by
  rcases s.expandReference_cases inner path r with ⟨hne, hr⟩ | ⟨body, he, hd, hr⟩
  · rw [← hkey] at hne
    rw [hr, expandReference_eq_expandKey hne, hkey]
  · rw [hr, expandReference_eq_default (hkey.trans he) hd, Expansion.text_append,
      Expansion.text_append, hkey, hdefault body hd]

/-- What a text comes to hangs on its path only as far as the keys that it leads to are on it. -/
theorem Agree.text_expandWithin_eq {keys : String → Prop} (H : s.Agree s' keys) (depth : Nat)
    {text : String} (htext : ∀ r : Reference, r.Occurs text → keys r.key)
    (hpath : ∀ key, keys key → (key ∈ path' ↔ key ∈ path)) :
    (s'.expandWithin depth path' text.toList).text =
      (s.expandWithin depth path text.toList).text := by
  induction depth generalizing path path' text with
  | zero => exact Expansion.text_fill_congr fun _ _ => rfl
  | succ depth ih =>
    apply Expansion.text_fill_congr
    intro r hr
    have hkey : keys r.key := htext r (.here hr)
    apply text_expandReference_congr
    · rcases s.expandKey_cases (s.expandWithin depth) path r.key with
        ⟨hmem, hk⟩ | ⟨hmem, hv, hk⟩ | ⟨value, hmem, hv, hk⟩
      · rw [hk, expandKey_of_mem ((hpath _ hkey).2 hmem)]
      · rw [hk, expandKey_of_none (mt (hpath _ hkey).1 hmem) ((H.value _ hkey).trans hv)]
      · rw [hk, expandKey_of_some (mt (hpath _ hkey).1 hmem) ((H.value _ hkey).trans hv)]
        apply ih
        · exact fun r' hr' => H.closed r.key r'.key hkey ⟨value, r', hv, hr', rfl⟩
        · intro key hkey'
          rw [List.mem_append, List.mem_append, hpath key hkey']
    · intro body hd
      exact ih (fun r' hr' => htext r' (.within hr hd hr')) hpath

end Scope

/-! ## New keys -/

variable {σ : Type} [Store σ]

namespace Record

/-- A key that can be given to a text: the record does not have it, the store has nothing to offer
under it, and no text refers to it, the given one included. -/
structure Fresh (record : Record) (store : σ) (text key : String) : Prop where
  get?_record : record.get? key = none
  get?_store : ∀ value, Store.get? store key = some value → value = ""
  occurs_text : ∀ r : Reference, r.Occurs text → r.key ≠ key
  occurs_record : ∀ k value, record.get? k = some value →
    ∀ r : Reference, r.Occurs value → r.key ≠ key
  occurs_store : ∀ k value, Store.get? store k = some value →
    ∀ r : Reference, r.Occurs value → r.key ≠ key

variable {record : Record} {store : σ} {text key k k' : String}

theorem get?_withEntry (record : Record) (key text k : String) :
    (record.withEntry key text).get? k = if k = key then some text else record.get? k :=
  record.parsed.get?_insert key k text

namespace Fresh

/-- No key leads to a fresh one. -/
theorem ne_of_refersTo (H : record.Fresh store text key) (options : Options)
    (h : RefersTo (record.parsed.scope store options).value? k k') : k' ≠ key := by
  obtain ⟨value, r, hv, hr, rfl⟩ := h
  exact Config.of_value? H.occurs_record H.occurs_store hv r hr

theorem ne_of_reaches (H : record.Fresh store text key) {options : Options} (hk : k ≠ key)
    (h : record.parsed.Reaches store options k k') : k' ≠ key := by
  cases h with
  | refl => exact hk
  | tail _ h => exact H.ne_of_refersTo options h

theorem sameOrBlank (hk : k ≠ key) (source : Source) :
    Config.SameOrBlank (source.get? record.parsed store k)
      (source.get? (record.withEntry key text).parsed store k) := by
  cases source with
  | config => exact .inl ((record.get?_withEntry key text k).trans (if_neg hk))
  | environment => exact .inl rfl

/-- An entry for a fresh key changes nothing for the others. -/
theorem agree (H : record.Fresh store text key) (options : Options) :
    (record.parsed.scope store options).Agree
      ((record.withEntry key text).parsed.scope store options) (· ≠ key) where
  maxDepth := rfl
  value _ hk := congrArg (Option.map _) (Config.lookup_congr (sameOrBlank hk))
  closed _ _ _ h := H.ne_of_refersTo options h

/-- The text comes to the same under the fresh key as under none. -/
theorem text_expansion (H : record.Fresh store text key) (options : Options) :
    String.ofList ((record.withEntry key text).parsed.expansion store options key text).text =
      record.parsed.interpolate store options text := by
  have hget : (record.withEntry key text).parsed.get? key = some text :=
    (record.get?_withEntry key text key).trans (if_pos rfl)
  rw [Config.expansion, Config.selected_eq_configured hget (.inl H.get?_store), Config.interpolate]
  refine congrArg String.ofList ((H.agree options).text_expandWithin_eq _ H.occurs_text ?_)
  intro k hk
  simp [hk]

end Fresh

/-- **A text can be given a key.** A pass over the record with the text under a fresh key gives this
key what the text comes to by itself, and says of the other keys what a pass over the record without
it says; and a text that is expanded by itself leaves the store alone. -/
theorem expand_withEntry (record : Record) (store : σ) (options : Options) {text key : String}
    (H : record.Fresh store text key) (htext : ¬['\\', '$'] <:+: text.toList) :
    ((record.withEntry key text).expand store options).record.get? key =
      some (record.parsed.interpolate store options text) ∧
    (∀ k, (record.get? k).isSome →
      Pass.SameFor k (record.expand store options)
        ((record.withEntry key text).expand store options)) ∧
    (Call.interpolate record.parsed options text).replyM.run store =
      (.text (record.parsed.interpolate store options text), store) := by
  refine ⟨?_, ?_, rfl⟩
  · rw [get?_expand_of_not_escaped ((record.get?_withEntry key text key).trans (if_pos rfl)) htext,
      H.text_expansion options]
  · intro k hsome
    obtain ⟨raw, hget⟩ := Option.isSome_iff_exists.1 hsome
    have hk : k ≠ key := by
      rintro rfl
      exact nomatch hget.symm.trans H.get?_record
    have hget' : (record.withEntry key text).get? k = some raw := by
      rw [get?_withEntry, if_neg hk, hget]
    exact sameFor_of_outcome_eq hget hget' (Config.outcome_eq_of_sameOrBlank hget hget'
      fun j hj => Fresh.sameOrBlank (H.ne_of_reaches hk hj))

/-- Two keys that lead to each other. -/
def loopTexts : Record := .ofConfig (.ofList [("A", "$B"), ("B", "b$A")])

/-- A store with the empty text under another key. -/
def blankStore : Table String String := .ofList [("T", "")]

theorem loopTexts_fresh : loopTexts.Fresh blankStore "$A:$\x7bC:-$B\x7d" "T" := by
  have hA (r : Reference) (hr : r.Occurs "$B") : r.key ≠ "T" := by
    rw [Reference.occurs_iff,
      show Template.ofText "$B" = [.reference ⟨"B", .bare⟩] by decide] at hr
    simp_all [Reference.default?]
  have hB (r : Reference) (hr : r.Occurs "b$A") : r.key ≠ "T" := by
    rw [Reference.occurs_iff, show Template.ofText "b$A" =
      [.literal 'b', .reference ⟨"A", .bare⟩] by decide] at hr
    simp_all [Reference.default?]
  have hentries : ∀ e ∈ loopTexts.parsed.entries, e.2 = "$B" ∨ e.2 = "b$A" := by decide
  have hstored : ∀ e ∈ blankStore.entries, e.2 = "" := by decide
  refine ⟨by decide, ?_, ?_, ?_, ?_⟩
  · intro value hget
    exact hstored _ (Table.mem_entries_iff.2 hget)
  · intro r hr
    rw [Reference.occurs_iff, show Template.ofText "$A:$\x7bC:-$B\x7d" = [.reference ⟨"A", .bare⟩,
      .literal ':', .reference ⟨"C", .withDefault true "$B"⟩] by decide] at hr
    simp [Reference.default?] at hr
    rcases hr with (rfl | rfl) | hr
    · decide
    · decide
    · exact hA r hr
  · intro k value hget
    rcases hentries (k, value) (Table.mem_entries_iff.2 hget) with rfl | rfl
    · exact hA
    · exact hB
  · intro k value hget r hr
    obtain rfl : value = "" := hstored (k, value) (Table.mem_entries_iff.2 hget)
    exact absurd hr r.not_occurs_empty

/-- The text leads into a cycle, which is cut in it as it is for its key. -/
theorem loopTexts_withEntry :
    loopTexts.Fresh blankStore "$A:$\x7bC:-$B\x7d" "T" ∧
    ((loopTexts.withEntry "T" "$A:$\x7bC:-$B\x7d").expand blankStore {}).record.get? "T" =
      some "b:b" ∧
    Pass.SameFor "A" (loopTexts.expand blankStore {})
      ((loopTexts.withEntry "T" "$A:$\x7bC:-$B\x7d").expand blankStore {}) := by
  obtain ⟨hvalue, hothers, -⟩ := expand_withEntry loopTexts blankStore {} loopTexts_fresh
    (Escape.ofText?_eq_none_iff.1 (by decide))
  have htext : loopTexts.parsed.interpolate blankStore {} "$A:$\x7bC:-$B\x7d" = "b:b" := by decide
  exact ⟨loopTexts_fresh, hvalue.trans (congrArg some htext), hothers "A" (by decide)⟩

end Record

end VarSubst
