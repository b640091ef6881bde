import VarSubst.Proofs.RecordShape
import VarSubst.Session

/-!
# Records and their texts

What is read from a text is a record of a kind (`Readable`): its configuration can be anything, but
its other fields fit into a text beside it and their members are merged. Such a record is read back
from its own text if no floating-point number is in it (`ofJson?_toJson`). A pass replaces texts of
the configuration only, so its record is of that kind again.
-/

namespace VarSubst.Record

open Json

/-- What the fields beside the configuration are like in a record that was read. -/
structure Readable (r : Record) : Prop where
  unnamed : ∀ e ∈ r.extra.entries, e.1 ≠ "parsed"
  fits : ∀ e ∈ r.extra.entries, Fits (nestingLimit - 1) e.2
  merged : ∀ e ∈ r.extra.entries, e.2.merged = e.2

/-! ## Records that were read -/

/-- The other fields that have been read fit into a text beside the configuration. -/
def Fields.Fit (f : Fields) : Prop :=
  ∀ m ∈ f.extra, m.1 ≠ "parsed" ∧ Fits (nestingLimit - 1) m.2

theorem yields_readField {f : Fields} {name : String} {read : Reader Fields} (hf : f.Fit)
    (hfield : readField f name = .ok read) : read.Yields Fields.Fit := by
  rw [readField] at hfield
  split at hfield
  · split at hfield
    · cases hfield
    · cases hfield
      exact Reader.Yields.map (P := fun _ => True) (fun _ _ _ _ => trivial) fun _ _ => hf
  · next hname =>
    cases hfield
    refine (yields_readValue _).map fun value hvalue m hm => ?_
    rcases List.mem_cons.1 hm with rfl | hm
    · exact ⟨hname, hvalue⟩
    · exact hf m hm

theorem Fields.Fit.readable_toRecord {f : Fields} (h : f.Fit) : f.toRecord.Readable := by
  have key (e : String × Json) (he : e ∈ f.toRecord.extra.entries) :
      ∃ m ∈ f.extra, (m.1, m.2.merged) = e := by
    have hmem := Table.mem_of_mem_ofList he
    rw [mergedMembers_eq_map, List.mem_map] at hmem
    obtain ⟨m, hm, heq⟩ := hmem
    exact ⟨m, List.mem_reverse.1 hm, heq⟩
  constructor
  all_goals
    intro e he
    obtain ⟨m, hm, rfl⟩ := key e he
  · exact (h m hm).1
  · exact (h m hm).2.merged
  · exact merged_merged m.2

theorem yields_reader : reader.Yields Readable := by
  intro cs r rest h
  obtain ⟨⟨head, _⟩, -, h⟩ := exists_of_bind_eq_ok h
  cases head with
  | object =>
    obtain ⟨⟨f, rest⟩, hfields, heq⟩ := exists_of_map_eq_ok h
    cases heq
    have hempty : Fields.Fit {} := fun _ hm => nomatch hm
    have hfit : f.Fit := yields_readFields yields_readField hempty hfields
    exact hfit.readable_toRecord
  | _ => cases h

theorem readable_of_ofJson? {text : String} {r : Record} (h : ofJson? text = .ok r) :
    r.Readable := by
  rw [ofJson?] at h
  split at h
  · next hread => cases h; exact yields_reader.run hread
  · cases h

/-! ## Records that are read back -/

/-- The value that is written for a record. -/
def toValue (r : Record) : Json :=
  .object (("parsed", .object (r.parsed.entries.map fun e => (e.1, .string e.2))) ::
    r.extra.entries)

theorem render_toValue (r : Record) : r.toValue.render = r.render := by
  rw [toValue, Json.render, renderMembers, Json.render, renderMembers_eq_map, List.map_map]
  rfl

/-- A record of the kind that is read, without floating-point numbers, is read from its own text. -/
theorem ofJson?_toJson {r : Record} (h : r.Readable)
    (hfloat : ∀ e ∈ r.extra.entries, e.2.FloatFree) : ofJson? r.toJson = .ok r := by
  have hfloat' : r.toValue.FloatFree := .object (List.forall_mem_cons.2
    ⟨.object (List.forall_mem_map.2 fun e _ => .string e.2), hfloat⟩)
  have hfits : Fits nestingLimit r.toValue := .object (List.forall_mem_cons.2
    ⟨.object (List.forall_mem_map.2 fun e _ => .string e.2), h.fits⟩)
  have htext : IsText r.toValue r.toJson := by
    rw [toJson, ← render_toValue]
    exact isText_render hfloat'
  have hparts := @Parts.named [] r.extra.entries r.parsed.entries (List.forall_mem_nil _) h.unnamed
  have hvalue : ofValue? r.toValue = some r := by
    refine (ofValue?_of_parts hparts).trans ?_
    rw [List.nil_append, mergedMembers_eq_self h.merged, Table.ofList_entries,
      Table.ofList_entries]
  exact toOption_eq_some_iff.1 ((toOption_ofJson? htext hfits).trans hvalue)

/-! ## Passes -/

/-- The other fields of a record are not touched by a pass. -/
theorem Readable.expand {σ : Type} [Store σ] {r : Record} (h : r.Readable) (store : σ)
    (options : Options) : (r.expand store options).record.Readable :=
  ⟨h.unnamed, h.fits, h.merged⟩

/-- **What is written is read back.** A record that was read, with no floating-point number in its
other fields, is read again from its own text. So is the record of a pass over it, lenient or
strict, in whatever store: the other fields are the same, and so are the keys of the configuration.
Only numbers that are kept count; one that a later member of the same name replaces may be of any
kind. -/
theorem roundTrip_of_ofJson? {text : String} {r : Record} (hread : ofJson? text = .ok r)
    (hfloat : ∀ name value, r.extra.get? name = some value → value.FloatFree) :
    r.extra.get? "parsed" = none ∧ ofJson? r.toJson = .ok r ∧
      ∀ {σ : Type} [Store σ] (store : σ) (options : Options) (r' : Record),
        (((r.expandM options).run store).1.1 = r' ∨
          ((r.expandStrictlyM options).run store).1 = .ok r') →
        r'.extra = r.extra ∧ r'.parsed.keys = r.parsed.keys ∧ ofJson? r'.toJson = .ok r' := by
  have hr := readable_of_ofJson? hread
  have hfloat' (e : String × Json) (he : e ∈ r.extra.entries) : e.2.FloatFree :=
    hfloat e.1 e.2 (Table.get?_of_mem he)
  refine ⟨Table.find?_eq_none hr.unnamed, ofJson?_toJson hr hfloat', ?_⟩
  intro σ _ store options r' hpass
  obtain rfl : (r.expand store options).record = r' := by
    rcases hpass with hlenient | hstrict
    · rw [run_expandM] at hlenient
      exact hlenient
    · rcases r.run_expandStrictlyM_cases options store with ⟨_, hrun⟩ | hrun
      · rw [hrun] at hstrict
        cases hstrict
      · rw [hrun] at hstrict
        exact Except.ok.inj hstrict
  have hkeys : (r.expand store options).record.parsed.keys = r.parsed.keys := by
    rw [Record.expand, Table.keys_map, Config.outcomes, Table.keys_map]
  exact ⟨rfl, hkeys, ofJson?_toJson (hr.expand store options) hfloat'⟩

/-- Names come twice, and the other field comes on both sides of the configuration. -/
def repeatedNames : String :=
  "\x7b\"n\": 1, \"parsed\":\x7b\"A\":\"\",\"A\":\"\\ud83d\\ude00\\t$B\"\x7d,\n" ++
    "\"n\":\x7b\"z\":null,\"a\":[-9223372036854775808],\"z\":18446744073709551615\x7d\x7d"

def lastValues : Record where
  parsed := ⟨[("A", "😀\t$B")], List.pairwise_singleton _ _⟩
  extra :=
    ⟨[("n", .object [
        ("a", .array [.number (.integer (-9223372036854775808))]),
        ("z", .number (.integer 18446744073709551615))])], List.pairwise_singleton _ _⟩

theorem repeatedNames_roundTrip :
    ofJson? repeatedNames = .ok lastValues ∧
      (∀ name value, lastValues.extra.get? name = some value → value.FloatFree) ∧
      ofJson? lastValues.toJson = .ok lastValues ∧
      ofJson? (lastValues.expand (Table.empty : Table String String) {}).record.toJson =
        .ok (lastValues.expand (Table.empty : Table String String) {}).record := by
  have hread : ofJson? repeatedNames = .ok lastValues := by
    have hsome : (ofJson? repeatedNames).toOption = some lastValues := by decide +kernel
    cases hresult : ofJson? repeatedNames with
    | error e => rw [hresult] at hsome; cases hsome
    | ok r => rw [hresult] at hsome; exact congrArg _ (Option.some.inj hsome)
  have hfloat : ∀ name value, lastValues.extra.get? name = some value → value.FloatFree := by
    intro name value hvalue
    cases List.mem_singleton.1 (Table.mem_of_find? hvalue)
    refine .object fun m hm => ?_
    rcases List.mem_cons.1 hm with rfl | hm
    · exact .array fun item hitem => List.mem_singleton.1 hitem ▸ .integer _
    · exact List.mem_singleton.1 hm ▸ .integer _
  obtain ⟨-, hsame, hpass⟩ := roundTrip_of_ofJson? hread hfloat
  exact ⟨hread, hfloat, hsame, (hpass Table.empty {} _ (.inl rfl)).2.2⟩

end VarSubst.Record
