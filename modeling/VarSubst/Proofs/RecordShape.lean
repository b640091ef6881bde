import VarSubst.Proofs.Json.LastWins
import VarSubst.Proofs.Json.Reading
import VarSubst.Proofs.Json.RoundTrip
import VarSubst.Record.Json

/-!
# The shape of a record

A text of a value is read as a record if the value is an object with the members of a record
(`Parts`): at most one of them is named `parsed`, wherever it stands, and it is an object of
strings. What the record holds is found by looking for the last member of a name (`Denotes`).
-/

namespace VarSubst

open Json

/-! ## Values -/

namespace Json

def string? : Json → Option String
  | .string s => some s
  | _ => none

/-- The configuration that the value is. -/
def config? : Json → Option Config
  | .object members =>
    (members.mapM fun (m : String × Json) => m.2.string?.map fun s => (m.1, s)).map Table.ofList
  | _ => none

end Json

namespace Record

/-- Adds a member of an object to what has been taken from the ones before it. -/
def Fields.add? (f : Fields) (name : String) (value : Json) : Option Fields :=
  if name = "parsed" then
    if f.parsed?.isSome then none
    else value.config?.map fun config => { f with parsed? := some config }
  else some { f with extra := (name, value) :: f.extra }

/-- The record that the value is. -/
def ofValue? : Json → Option Record
  | .object members =>
    (members.foldlM (fun (f : Fields) (m : String × Json) => f.add? m.1 m.2) {}).map
      Fields.toRecord
  | _ => none

/-! ## Reading -/

section Reading

variable {value : Json} {text : List Char}

theorem answers_readString (h : Spelled value text) (wanted : String) :
    (readString wanted).Answers text value.string? := by
  cases hvalue : value.string? with
  | some s =>
    cases h with
    | string h =>
      cases hvalue
      exact (answers_readHead_string h).readAs
    | _ => cases hvalue
  | none =>
    intro before rest hbefore hrest
    rw [readString, outcome_readAs]
    refine Option.bind_eq_none_iff.2 fun (head, cs) hhead => ?_
    cases h.starts hbefore hrest hhead with
    | string s => cases hvalue
    | _ => rfl

/-- The reader takes objects and nothing else. -/
def OnlyObjects {α β : Type} (read : Reader α) (inner : Reader β) (f : β → α) : Prop :=
  ∀ cs, read.outcome cs = (readHead.outcome cs).bind fun p =>
    match p.1 with
    | .object => (inner.outcome p.2).map fun q => (f q.1, q.2)
    | _ => none

namespace OnlyObjects

variable {α β : Type} {read : Reader α} {inner : Reader β} {f : β → α}

theorem enters (hread : OnlyObjects read inner f) : read.Enters inner f := by
  intro cs rest hhead
  rw [hread, hhead]
  rfl

theorem answers_none (hread : OnlyObjects read inner f) (h : Spelled value text)
    (hvalue : ∀ members, value ≠ .object members) : read.Answers text none := by
  intro before rest hbefore hrest
  rw [hread]
  refine Option.bind_eq_none_iff.2 fun (head, cs) hhead => ?_
  cases h.starts hbefore hrest hhead with
  | object members => exact absurd rfl (hvalue members)
  | _ => rfl

end OnlyObjects

theorem onlyObjects_readConfig :
    OnlyObjects readConfig (readObject (readString "a string")) Table.ofList := by
  intro cs
  refine erase_bind fun head rest => ?_
  cases head with
  | object => exact erase_map fun _ _ => rfl
  | _ => rfl

theorem answers_readConfig (h : Spelled value text) : readConfig.Answers text value.config? := by
  cases value with
  | object members =>
    cases h with
    | object hcs h =>
      rw [config?, List.mapM_map]
      exact onlyObjects_readConfig.enters.answers
        (outcome_readObject (fun m hm => answers_readString (h m hm) "a string") hcs)
  | _ => exact onlyObjects_readConfig.answers_none h fun _ h => nomatch h

theorem fieldAnswers_readField (f : Fields) (name : String) (h : Spelled value text)
    (hfits : Fits (nestingLimit - 1) value) :
    FieldAnswers readField f name text (f.add? name value) := by
  rw [Fields.add?]
  split
  · next hname =>
    split
    · next hsome => exact .refused (by rw [readField, if_pos hname, if_pos hsome])
    · next hnone =>
      refine .read ?_ ((answers_readConfig h).map fun config => { f with parsed? := some config })
      rw [readField, if_pos hname, if_neg hnone]
  · next hname =>
    refine .read ?_ ((answers_readValue h hfits).map fun value =>
      { f with extra := (name, value) :: f.extra })
    rw [readField, if_neg hname]

theorem onlyObjects_reader : OnlyObjects reader (readFields readField {}) Fields.toRecord := by
  intro cs
  refine erase_bind fun head rest => ?_
  cases head with
  | object => exact erase_map fun _ _ => rfl
  | _ => rfl

theorem answers_reader (h : Spelled value text) (hfits : Fits nestingLimit value) :
    reader.Answers text (ofValue? value) := by
  cases value with
  | object members =>
    cases h with
    | @object members _ hcs h =>
      cases hfits with
      | object hfits =>
        rw [List.forall_mem_map] at hfits
        rw [ofValue?, List.foldlM_map]
        exact onlyObjects_reader.enters.answers (outcome_readFields
          (fun m hm f => fieldAnswers_readField f m.1 (h m hm) (hfits m hm)) hcs {})
  | _ => exact onlyObjects_reader.answers_none h fun _ h => nomatch h

/-- A text of a value is read as the record that the value is. -/
theorem toOption_ofJson? {text : String} (h : IsText value text) (hfits : Fits nestingLimit value) :
    (ofJson? text).toOption = ofValue? value := by
  obtain ⟨cs, hspelled, hpadded⟩ := h
  rw [← (answers_reader hspelled hfits).run hpadded, ofJson?]
  cases reader.run text with
  | ok r => rfl
  | error p => rfl

end Reading

/-! ## Shape -/

/-- The members of a record fall into the entries of its configuration and the other members. The
configuration may be missing, and otherwise it may stand between any others. -/
inductive Parts : List (String × Json) → List (String × String) → List (String × Json) → Prop
  | unnamed {others : List (String × Json)} (h : ∀ m ∈ others, m.1 ≠ "parsed") :
    Parts others [] others
  | named {before behind : List (String × Json)} {entries : List (String × String)}
      (hbefore : ∀ m ∈ before, m.1 ≠ "parsed") (hbehind : ∀ m ∈ behind, m.1 ≠ "parsed") :
    Parts (before ++ ("parsed", .object (entries.map fun e => (e.1, .string e.2))) :: behind)
      entries (before ++ behind)

/-- The value stands for the record: its members are those of a record, and what the record has
under a name is the last value of the name, in which repeated names are resolved too. -/
inductive Denotes : Json → Record → Prop
  | object {members others : List (String × Json)} {entries : List (String × String)} {r : Record}
      (h : Parts members entries others)
      (hparsed : ∀ key, r.parsed.get? key = Table.find? key entries.reverse)
      (hextra : ∀ name,
        Option.Rel LastWins (Table.find? name others.reverse) (r.extra.get? name)) :
    Denotes (.object members) r

section Shape

variable {members others : List (String × Json)} {entries : List (String × String)}

theorem config?_entries (entries : List (String × String)) :
    config? (.object (entries.map fun e => (e.1, .string e.2))) = some (.ofList entries) := by
  have hentries : (entries.mapM fun e => (some e.2).map fun s => (e.1, s)) = some entries :=
    List.mapM_pure.trans (congrArg some (List.map_id' entries))
  rw [config?, List.mapM_map]
  exact congrArg (Option.map Table.ofList) hentries

theorem exists_entries {value : Json} {config : Config} (h : value.config? = some config) :
    ∃ entries : List (String × String),
      value = .object (entries.map fun e => (e.1, .string e.2)) := by
  cases value with
  | object members =>
    obtain ⟨entries, hentries, -⟩ := Option.map_eq_some_iff.1 h
    refine ⟨entries, congrArg Json.object ?_⟩
    clear h
    induction members generalizing entries with
    | nil =>
      cases hentries
      rfl
    | cons m members ih =>
      obtain ⟨name, value⟩ := m
      rw [List.mapM_cons] at hentries
      obtain ⟨entry, hentry, h⟩ := Option.bind_eq_some_iff.1 hentries
      obtain ⟨entries', hentries', heq⟩ := Option.bind_eq_some_iff.1 h
      cases heq
      cases value with
      | string s =>
        cases hentry
        exact congrArg _ (ih entries' hentries')
      | _ => cases hentry
  | _ => cases h

theorem foldlM_unnamed (f : Fields) (h : ∀ m ∈ members, m.1 ≠ "parsed") :
    members.foldlM (fun f m => f.add? m.1 m.2) f =
      some { f with extra := members.reverse ++ f.extra } := by
  induction members generalizing f with
  | nil => rfl
  | cons m members ih =>
    rw [List.forall_mem_cons] at h
    rw [List.foldlM_cons, Fields.add?, if_neg h.1]
    refine (ih _ h.2).trans ?_
    rw [List.reverse_cons, List.append_assoc]
    rfl

/-- The configuration does not come twice. -/
theorem foldlM_repeated {f : Fields} (hf : f.parsed?.isSome)
    (h : ¬∀ m ∈ members, m.1 ≠ "parsed") :
    members.foldlM (fun f m => f.add? m.1 m.2) f = none := by
  induction members generalizing f with
  | nil => exact absurd (List.forall_mem_nil _) h
  | cons m members ih =>
    rw [List.foldlM_cons, Fields.add?]
    by_cases hm : m.1 = "parsed"
    · rw [if_pos hm, if_pos hf]
      rfl
    · rw [if_neg hm]
      exact ih (f := { f with extra := m :: f.extra }) hf
        fun h' => h (List.forall_mem_cons.2 ⟨hm, h'⟩)

theorem ofValue?_of_parts (h : Parts members entries others) :
    ofValue? (.object members) =
      some { parsed := .ofList entries, extra := .ofList (mergedMembers others) } := by
  cases h with
  | unnamed h =>
    rw [ofValue?, foldlM_unnamed {} h, Option.map_some, Fields.toRecord, List.append_nil,
      List.reverse_reverse]
    rfl
  | @named before behind _ hbefore hbehind =>
    have hadd (f : Fields) (hf : f.parsed? = none) :
        f.add? "parsed" (.object (entries.map fun e => (e.1, .string e.2))) =
          some { f with parsed? := some (.ofList entries) } := by
      rw [Fields.add?, if_pos rfl, hf, config?_entries]
      rfl
    have hfold : (before ++ ("parsed", .object (entries.map fun e => (e.1, .string e.2))) ::
        behind).foldlM (fun f m => f.add? m.1 m.2) ({} : Fields) = some
          { parsed? := some (.ofList entries), extra := behind.reverse ++ before.reverse } := by
      have hlast := foldlM_unnamed
        { parsed? := some (.ofList entries), extra := before.reverse } hbehind
      rw [List.foldlM_append, foldlM_unnamed {} hbefore, List.append_nil, Option.bind_eq_bind,
        Option.bind_some, List.foldlM_cons, hadd _ rfl]
      exact hlast
    rw [ofValue?, hfold, Option.map_some, Fields.toRecord, ← List.reverse_append,
      List.reverse_reverse]
    rfl

theorem exists_first_parsed (members : List (String × Json)) :
    (∀ m ∈ members, m.1 ≠ "parsed") ∨ ∃ before value behind,
      members = before ++ ("parsed", value) :: behind ∧ ∀ m ∈ before, m.1 ≠ "parsed" := by
  by_cases h : ∀ m ∈ members, m.1 ≠ "parsed"
  · exact .inl h
  · simp only [not_forall, not_not] at h
    obtain ⟨m, hm, hname⟩ := h
    obtain ⟨⟨name, value⟩, before, behind, hbefore, hfirst, hmembers, -⟩ :=
      List.exists_of_eraseP (p := fun m => m.1 = "parsed") hm (decide_eq_true hname)
    obtain rfl : name = "parsed" := of_decide_eq_true hfirst
    exact .inr ⟨before, value, behind, hmembers,
      fun m hm hname => hbefore m hm (decide_eq_true hname)⟩

theorem exists_parts {r : Record} (h : ofValue? (.object members) = some r) :
    ∃ entries others, Parts members entries others := by
  rcases exists_first_parsed members with hunnamed | ⟨before, value, behind, rfl, hbefore⟩
  · exact ⟨[], members, .unnamed hunnamed⟩
  · obtain ⟨f, hfold, -⟩ := Option.map_eq_some_iff.1 h
    rw [List.foldlM_append, foldlM_unnamed {} hbefore, List.append_nil, Option.bind_eq_bind,
      Option.bind_some, List.foldlM_cons] at hfold
    obtain ⟨f', hadd, hlast⟩ := Option.bind_eq_some_iff.1 hfold
    obtain ⟨config, hconfig, rfl⟩ := Option.map_eq_some_iff.1 hadd
    obtain ⟨entries, rfl⟩ := exists_entries hconfig
    refine ⟨entries, before ++ behind, .named hbefore ?_⟩
    -- A second configuration would have been refused, whatever its value.
    by_contra hrepeated
    have hnone := foldlM_repeated (f := { parsed? := some config, extra := before.reverse }) rfl
      hrepeated
    cases hnone.symm.trans hlast

theorem ofValue?_eq_some_iff {value : Json} {r : Record} :
    ofValue? value = some r ↔ Denotes value r := by
  have hother (others : List (String × Json)) (name : String) :
      (Table.ofList (mergedMembers others)).get? name =
        (Table.find? name others.reverse).map merged := by
    rw [ofList_mergedMembers, Table.get?_map, Table.get?_ofList]
  refine ⟨fun h => ?_, fun h => ?_⟩
  · cases value with
    | object members =>
      obtain ⟨entries, others, hparts⟩ := exists_parts h
      rw [ofValue?_of_parts hparts] at h
      cases h
      exact .object hparts (Table.get?_ofList entries) fun name =>
        rel_lastWins_iff.2 (hother others name).symm
    | _ => cases h
  · obtain ⟨hparts, hparsed, hextra⟩ := h
    next members others entries =>
    have hconfig : Table.ofList entries = r.parsed :=
      Table.ext_get? fun key => (Table.get?_ofList entries key).trans (hparsed key).symm
    have hothers : Table.ofList (mergedMembers others) = r.extra :=
      Table.ext_get? fun name => (hother others name).trans (rel_lastWins_iff.1 (hextra name))
    rw [ofValue?_of_parts hparts, hconfig, hothers]

end Shape

/-- **A record is read from every text of its shape, and from no other.** A value without
floating-point numbers is read from each of its texts as a record if it has the shape of one, as the
record that it stands for, and otherwise it is refused. -/
theorem ofJson?_of_isText {value : Json} {text : String} (hfits : Fits nestingLimit value)
    (htext : IsText value text) :
    (∀ r, ofJson? text = .ok r ↔ Denotes value r) ∧
      ((∃ r, ofJson? text = .ok r) ↔
        ∃ members entries others, value = .object members ∧ Parts members entries others) ∧
      ((¬∃ members entries others, value = .object members ∧ Parts members entries others) →
        ∃ e : InvalidRecord, ofJson? text = .error e) := by
  have hread := toOption_ofJson? htext hfits
  have hok (r : Record) : ofJson? text = .ok r ↔ Denotes value r := by
    rw [← ofValue?_eq_some_iff, ← hread, toOption_eq_some_iff]
  have hshape : (∃ r, ofJson? text = .ok r) ↔
      ∃ members entries others, value = .object members ∧ Parts members entries others := by
    refine ⟨fun ⟨r, h⟩ => ?_, fun ⟨members, entries, others, hvalue, hparts⟩ => ?_⟩
    · obtain ⟨hparts, -, -⟩ := (hok r).1 h
      exact ⟨_, _, _, rfl, hparts⟩
    · subst hvalue
      exact ⟨_, (hok _).2 (ofValue?_eq_some_iff.1 (ofValue?_of_parts hparts))⟩
  refine ⟨hok, hshape, fun hnone => ?_⟩
  cases hresult : ofJson? text with
  | ok r => exact absurd (hshape.1 ⟨r, hresult⟩) hnone
  | error e => exact ⟨e, rfl⟩

/-- The name of the configuration is written with an escape, other names come twice, and blanks
stand around the first member. -/
def escapedName : String :=
  "\x7b \"a\":true ,\"p\\u0061rsed\":\x7b\"K\":\"x\",\"K\":\"y\"\x7d," ++
    "\"a\":\x7b\"z\":\"\",\"z\":null\x7d\x7d"

namespace escapedName

def config : Json := .object [("K", .string "x"), ("K", .string "y")]

def other : Json := .object [("z", .string ""), ("z", .null)]

def value : Json := .object [("a", .boolean true), ("parsed", config), ("a", other)]

def record : Record where
  parsed := ⟨[("K", "y")], List.pairwise_singleton _ _⟩
  extra := ⟨[("a", .object [("z", .null)])], List.pairwise_singleton _ _⟩

end escapedName

open escapedName in
theorem isText_escapedName : IsText value escapedName := by
  have hzero : IsHexDigit 0 '0' := isHexDigit_digitChar (Nat.zero_lt_succ 15)
  have hunit : IsUnit 97 ['0', '0', '6', '1'] :=
    .digits hzero hzero (isHexDigit_digitChar (by omega : 6 < 16))
      (isHexDigit_digitChar (by omega : 1 < 16))
  have hname : SpelledString "parsed" _ :=
    .quoted (.cons (spelledChar_renderChar 'p')
      (.cons (.codePoint hunit : SpelledChar 'a' _) (spelledChars_flatMap ['r', 's', 'e', 'd'])))
  have hspace : Blank [' '] := List.forall_mem_singleton.2 rfl
  have hconfig : Spelled config config.render := spelled_render
    (.object (List.forall_mem_cons.2 ⟨.string "x", List.forall_mem_singleton.2 (.string "y")⟩))
  have hother : Spelled other other.render := spelled_render
    (.object (List.forall_mem_cons.2 ⟨.string "", List.forall_mem_singleton.2 .null⟩))
  have hmembers : Members SpelledString
      [("a", Json.render (.boolean true)), ("parsed", config.render), ("a", other.render)] _ :=
    ⟨_, .cons (@Padded.intro _ [' '] [' '] hspace hspace) (.cons (.self _) (.cons (.self _) .nil)),
      .cons ⟨_, spelledString_renderString "a", .intro .nil .nil⟩
        (.cons ⟨_, hname, .intro .nil .nil⟩
          (.cons ⟨_, spelledString_renderString "a", .intro .nil .nil⟩ .nil))⟩
  have hvalue := @Spelled.object [("a", .boolean true, _), ("parsed", config, _), ("a", other, _)]
    _ hmembers (List.forall_mem_cons.2 ⟨Spelled.boolean true,
      List.forall_mem_cons.2 ⟨hconfig, List.forall_mem_singleton.2 hother⟩⟩)
  exact hvalue.isText (by decide +kernel)

open escapedName in
theorem escapedName_denotes :
    Fits nestingLimit value ∧ IsText value escapedName ∧ ofJson? escapedName = .ok record ∧
      Denotes value record := by
  have hconfig : Fits (nestingLimit - 1) config :=
    .object (List.forall_mem_cons.2 ⟨.string "x", List.forall_mem_singleton.2 (.string "y")⟩)
  have hother : Fits (nestingLimit - 1) other :=
    .object (List.forall_mem_cons.2 ⟨.string "", List.forall_mem_singleton.2 .null⟩)
  have hfits : Fits nestingLimit value := .object (List.forall_mem_cons.2
    ⟨.boolean true, List.forall_mem_cons.2 ⟨hconfig, List.forall_mem_singleton.2 hother⟩⟩)
  have hread : ofJson? escapedName = .ok record := toOption_eq_some_iff.1 (by decide +kernel)
  obtain ⟨hdenotes, -, -⟩ := ofJson?_of_isText hfits isText_escapedName
  exact ⟨hfits, isText_escapedName, hread, (hdenotes record).1 hread⟩

end Record

end VarSubst
