import VarSubst.Options.Json
import VarSubst.Proofs.Json.RoundTrip
import VarSubst.Proofs.Json.Skipping

/-!
# The shape of options

An object is read as options by the texts of its members under two names. Under each of them stands
no text, and the field has its default, or the text of one value (`Gives`). The other members can be
anything, and neither their number nor their places matter (`ofJson?_of_isObjectText`).
-/

namespace VarSubst

open Json

/-! ## Texts of values -/

namespace Json

def booleanText (b : Bool) : List Char := render (.boolean b)

def integerText (n : UInt64) : List Char := render (.number (.integer n.toNat))

/-- What a boolean or an integer in range tells about the text that it is read from. -/
def Head.Tells : Head → List Char → Prop
  | .boolean b, text => text = booleanText b
  | .number (.integer n), text => (Number.integer n).InRange ∧ text = Number.renderInteger n
  | _, _ => True

theorem IsValue.tells {before text rest cs : List Char} {head : Head} (h : IsValue text)
    (hbefore : Blank before) (hrest : EndsNumber rest)
    (hhead : readHead.outcome (before ++ (text ++ rest)) = some (head, cs)) : head.Tells text := by
  cases h with
  | null =>
    rw [answers_readHead_null before rest hbefore hrest] at hhead
    cases hhead
    exact trivial
  | boolean b =>
    rw [answers_readHead_boolean b before rest hbefore hrest] at hhead
    cases hhead
    exact rfl
  | number h =>
    rw [answers_readHead_numeral h before rest hbefore hrest, Option.map_map,
      Option.map_eq_some_iff] at hhead
    obtain ⟨value, hvalue, heq⟩ := hhead
    cases heq
    cases value with
    | integer n => exact ⟨Numeral.inRange_of_value? hvalue, h.eq_renderInteger hvalue⟩
    | float f => exact trivial
  | string h =>
    obtain ⟨h⟩ := h
    rw [List.cons_append, outcome_readHead_quote hbefore, Option.map_eq_some_iff] at hhead
    obtain ⟨p, -, heq⟩ := hhead
    cases heq
    exact trivial
  | array _ _ =>
    rw [List.cons_append, outcome_readHead_list hbefore] at hhead
    cases hhead
    exact trivial
  | object _ _ =>
    rw [List.cons_append, outcome_readHead_object hbefore] at hhead
    cases hhead
    exact trivial

/-- The reader takes the texts of its values, and of other values it refuses the texts. -/
structure Reader.Decodes {α : Type} (read : Reader α) (render : α → List Char) : Prop where
  accepts (a : α) : read.Answers (render a) (some a)
  refuses {text : List Char} (h : IsValue text) (hne : ∀ a, text ≠ render a) :
    read.Answers text none

/-- What the reader returns for a text alone. -/
def Reader.value? {α : Type} (read : Reader α) (text : List Char) : Option α :=
  (read.outcome text).map (·.1)

theorem Reader.Answers.value?_eq {α : Type} {read : Reader α} {text : List Char} {a? : Option α}
    (h : read.Answers text a?) : read.value? text = a? := by
  have hread := h [] [] .nil fun _ hc => nomatch hc
  rw [List.nil_append, List.append_nil] at hread
  rw [Reader.value?, hread, Option.map_map]
  exact Option.map_id'

namespace Reader.Decodes

variable {α : Type} {read : Reader α} {render : α → List Char} {text : List Char}

theorem answers (hread : read.Decodes render) (h : IsValue text) :
    read.Answers text (read.value? text) := by
  by_cases hex : ∃ a, text = render a
  · obtain ⟨a, rfl⟩ := hex
    rw [(hread.accepts a).value?_eq]
    exact hread.accepts a
  · have hnone := hread.refuses h (not_exists.1 hex)
    rw [hnone.value?_eq]
    exact hnone

theorem value?_eq_some_iff (hread : read.Decodes render) (h : IsValue text) {a : α} :
    read.value? text = some a ↔ text = render a := by
  refine ⟨fun hvalue => ?_, fun heq => heq ▸ (hread.accepts a).value?_eq⟩
  by_cases hex : ∃ a, text = render a
  · obtain ⟨a', rfl⟩ := hex
    rw [(hread.accepts a').value?_eq] at hvalue
    rw [Option.some.inj hvalue]
  · rw [(hread.refuses h (not_exists.1 hex)).value?_eq] at hvalue
    cases hvalue

end Reader.Decodes

theorem decodes_readBoolean (wanted : String) : (readBoolean wanted).Decodes booleanText where
  accepts b := (answers_readHead_boolean b).readAs
  refuses h hne before rest hbefore hrest := by
    rw [readBoolean, outcome_readAs]
    refine Option.bind_eq_none_iff.2 fun p hhead => ?_
    have htells := h.tells hbefore hrest hhead
    generalize p.1 = head at htells
    cases head with
    | boolean b => exact absurd htells (hne b)
    | _ => rfl

/-- The unsigned integer that a head is. -/
def Head.uint64? : Head → Option UInt64
  | .number (.integer n) => if n < 0 then none else some (UInt64.ofNat n.toNat)
  | _ => none

theorem Head.uint64?_toNat (n : UInt64) : (Head.number (.integer n.toNat)).uint64? = some n := by
  have hsign : ¬(n.toNat : Int) < 0 := by omega
  rw [Head.uint64?, if_neg hsign, Int.toNat_natCast, UInt64.ofNat_toNat]

theorem outcome_readUInt64 (wanted : String) (cs : List Char) :
    (readUInt64 wanted).outcome cs =
      (readHead.outcome cs).bind fun p => p.1.uint64?.map fun n => (n, p.2) := by
  have hread : (readUInt64 wanted).outcome cs = ((readAs wanted fun
      | .number (.integer n) => some n
      | _ => none).outcome cs).bind fun p =>
        if p.1 < 0 then none else some (UInt64.ofNat p.1.toNat, p.2) := by
    refine erase_bind fun n rest => ?_
    dsimp only
    split <;> rfl
  rw [hread, outcome_readAs, Option.bind_assoc]
  refine congrArg (Option.bind _) (funext fun (head, rest) => ?_)
  cases head with
  | number value =>
    cases value with
    | integer n =>
      simp only [Head.uint64?, Option.map_some, Option.bind_some]
      split <;> rfl
    | float f => rfl
  | _ => rfl

theorem Head.Tells.uint64?_eq_none {n : Int} {text : List Char}
    (h : (Head.number (.integer n)).Tells text) (hne : ∀ k, text ≠ integerText k) :
    (Head.number (.integer n)).uint64? = none := by
  have hgreatest : n ≤ 18446744073709551615 := h.1.2
  rw [Head.uint64?]
  split
  · rfl
  · next hsign =>
    have hn : (UInt64.ofNat n.toNat).toNat = n.toNat :=
      UInt64.toNat_ofNat'.trans (Nat.mod_eq_of_lt (by omega))
    refine absurd ?_ (hne (UInt64.ofNat n.toNat))
    rw [integerText, hn, Int.toNat_of_nonneg (Int.not_lt.1 hsign)]
    exact h.2

theorem decodes_readUInt64 (wanted : String) : (readUInt64 wanted).Decodes integerText where
  accepts n before rest hbefore hrest := by
    have hlt : n.toNat < 18446744073709551616 := n.toNat_lt
    have hrange : (Number.integer n.toNat).InRange := ⟨by omega, by omega⟩
    have hhead := answers_readHead_numeral (spelled_renderInteger n.toNat) before rest hbefore hrest
    rw [Numeral.value?_toDigits hrange] at hhead
    rw [outcome_readUInt64, integerText, Json.render, Number.render, hhead]
    exact congrArg (Option.map fun n => (n, rest)) (Head.uint64?_toNat n)
  refuses h hne before rest hbefore hrest := by
    rw [outcome_readUInt64]
    refine Option.bind_eq_none_iff.2 fun p hhead => ?_
    have htells := h.tells hbefore hrest hhead
    generalize p.1 = head at htells
    cases head with
    | number value =>
      cases value with
      | integer n => exact congrArg (Option.map _) (htells.uint64?_eq_none hne)
      | float f => rfl
    | _ => rfl

end Json

namespace Options

/-! ## Fields -/

theorem decodes_readEnvironmentFirst : readEnvironmentFirst.Decodes booleanText :=
  decodes_readBoolean "a boolean"

theorem decodes_readMaxDepth : readMaxDepth.Decodes integerText := decodes_readUInt64 "usize"

/-- Takes the text of another value for a field, which must not have one already. -/
def take? {α : Type} (read : Reader α) (a? : Option α) (text : List Char) : Option (Option α) :=
  if a?.isSome then none else (read.value? text).map some

/-- Adds a member, given by its name and the text of its value, to what has been taken from the ones
before it. -/
def Fields.add? (f : Fields) (name : String) (text : List Char) : Option Fields :=
  if name = "envFirst" then
    (take? readEnvironmentFirst f.environmentFirst? text).map fun b? =>
      { f with environmentFirst? := b? }
  else if name = "maxDepth" then
    (take? readMaxDepth f.maxDepth? text).map fun n? => { f with maxDepth? := n? }
  else some f

theorem fieldAnswers_readField (f : Fields) (name : String) {text : List Char} (h : IsValue text) :
    FieldAnswers readField f name text (f.add? name text) := by
  rw [Fields.add?]
  split
  · next hname =>
    rw [take?]
    split
    · next hsome => exact .refused (by rw [readField, if_pos hname, if_pos hsome])
    · next hnone =>
      have hread := (decodes_readEnvironmentFirst.answers h).map
        fun b => { f with environmentFirst? := some b }
      rw [Option.map_map]
      refine .read ?_ hread
      rw [readField, if_pos hname, if_neg hnone]
  · next hname =>
    split
    · next hname' =>
      rw [take?]
      split
      · next hsome => exact .refused (by rw [readField, if_neg hname, if_pos hname', if_pos hsome])
      · next hnone =>
        have hread := (decodes_readMaxDepth.answers h).map
          fun n => { f with maxDepth? := some n }
        rw [Option.map_map]
        refine .read ?_ hread
        rw [readField, if_neg hname, if_pos hname', if_neg hnone]
    · next hname' =>
      refine .read ?_ ((answers_skipValue h).map fun _ => f)
      rw [readField, if_neg hname, if_neg hname']

/-- The texts of the members of one name. -/
def textsOf (name : String) (members : List (String × List Char)) : List (List Char) :=
  (members.filter (·.1 = name)).map (·.2)

section Fold

variable {members : List (String × List Char)} {m : String × List Char} {name : String}

theorem textsOf_cons_of_eq (h : m.1 = name) :
    textsOf name (m :: members) = m.2 :: textsOf name members := by
  rw [textsOf, List.filter_cons, if_pos (decide_eq_true h)]
  rfl

theorem textsOf_cons_of_ne (h : m.1 ≠ name) :
    textsOf name (m :: members) = textsOf name members := by
  rw [textsOf, List.filter_cons, decide_eq_false h]
  rfl

/-- Members are taken name by name. -/
theorem foldlM_add? (f : Fields) :
    members.foldlM (fun f m => f.add? m.1 m.2) f =
      ((textsOf "envFirst" members).foldlM (take? readEnvironmentFirst) f.environmentFirst?).bind
        fun b? => ((textsOf "maxDepth" members).foldlM (take? readMaxDepth) f.maxDepth?).map
          fun n? => { environmentFirst? := b?, maxDepth? := n? } := by
  induction members generalizing f with
  | nil => rfl
  | cons m members ih =>
    rw [List.foldlM_cons, Fields.add?]
    split
    · next hname =>
      have hne : m.1 ≠ "maxDepth" := hname ▸ by decide
      rw [textsOf_cons_of_eq hname, textsOf_cons_of_ne hne, List.foldlM_cons]
      cases take? readEnvironmentFirst f.environmentFirst? m.2 with
      | none => rfl
      | some b? => exact ih { f with environmentFirst? := b? }
    · next hne =>
      rw [textsOf_cons_of_ne hne]
      split
      · next hname =>
        rw [textsOf_cons_of_eq hname, List.foldlM_cons]
        cases take? readMaxDepth f.maxDepth? m.2 with
        -- The other fold may fail as well, but only whether one of them fails is seen.
        | none => exact (Option.bind_fun_none _).symm
        | some n? => exact ih { f with maxDepth? := n? }
      · next hne' =>
        rw [textsOf_cons_of_ne hne']
        exact ih f

end Fold

/-! ## Shape -/

/-- The texts under a name give the field its value: either there is none, and the field has its
default, or there is one, and it is the text of the value. -/
inductive Gives {α : Type} (render : α → List Char) (default : α) : List (List Char) → α → Prop
  | missing : Gives render default [] default
  | once (a : α) : Gives render default [render a] a

/-- There is at most one text, and it is the text of a value. -/
def AtMostOne {α : Type} (render : α → List Char) (texts : List (List Char)) : Prop :=
  texts.length ≤ 1 ∧ ∀ text ∈ texts, ∃ a, text = render a

section Gives

variable {α : Type} {read : Reader α} {render : α → List Char} {default a : α}
  {texts : List (List Char)}

theorem exists_gives_iff : (∃ a, Gives render default texts a) ↔ AtMostOne render texts := by
  refine ⟨fun ⟨a, h⟩ => ?_, fun ⟨hlength, hrender⟩ => ?_⟩
  · cases h with
    | missing => exact ⟨Nat.zero_le 1, List.forall_mem_nil _⟩
    | once => exact ⟨Nat.le_refl 1, List.forall_mem_singleton.2 ⟨a, rfl⟩⟩
  · match texts, hlength with
    | [], _ => exact ⟨default, .missing⟩
    | [text], _ =>
      obtain ⟨a, rfl⟩ := List.forall_mem_singleton.1 hrender
      exact ⟨a, .once a⟩

theorem foldlM_take?_singleton (text : List Char) :
    [text].foldlM (take? read) none = (read.value? text).map some := by
  change ((read.value? text).map some).bind some = _
  exact Option.bind_fun_some _

theorem foldlM_take?_repeated (text text' : List Char) (texts : List (List Char)) :
    (text :: text' :: texts).foldlM (take? read) none = none := by
  change ((read.value? text).map some).bind _ = _
  cases read.value? text with
  | none => rfl
  | some a => rfl

theorem gives_iff (hread : read.Decodes render) (htexts : ∀ text ∈ texts, IsValue text) :
    Gives render default texts a ↔
      ∃ a?, texts.foldlM (take? read) none = some a? ∧ a?.getD default = a := by
  match texts, htexts with
  | [], _ =>
    refine ⟨fun h => ?_, fun ⟨a?, hfold, hdefault⟩ => ?_⟩
    · cases h
      exact ⟨none, rfl, rfl⟩
    · cases hfold
      exact hdefault ▸ .missing
  | [text], htexts =>
    have htext : IsValue text := List.forall_mem_singleton.1 htexts
    rw [foldlM_take?_singleton]
    refine ⟨fun h => ?_, fun ⟨a?, hfold, hdefault⟩ => ?_⟩
    · cases h
      exact ⟨some a, congrArg _ ((hread.value?_eq_some_iff htext).2 rfl), rfl⟩
    · obtain ⟨a', hvalue, rfl⟩ := Option.map_eq_some_iff.1 hfold
      obtain rfl := (hread.value?_eq_some_iff htext).1 hvalue
      exact hdefault ▸ .once a'
  | text :: text' :: texts, _ =>
    rw [foldlM_take?_repeated]
    refine ⟨fun h => ?_, fun ⟨a?, hfold, _⟩ => ?_⟩
    · cases h
    · cases hfold

end Gives

/-! ## Reading -/

theorem enters_reader : reader.Enters (readFields readField {}) Fields.toOptions := by
  intro cs rest hhead
  obtain ⟨hlt, hread⟩ := Reader.outcome_eq_some_iff.1 hhead
  unfold Reader.outcome reader
  rw [hread]
  exact erase_map fun _ _ => rfl

section Reading

variable {members : List (String × List Char)} {text : String}

theorem toOption_ofJson? (hvalues : ∀ m ∈ members, IsValue m.2) (h : IsObjectText members text) :
    (ofJson? text).toOption =
      (members.foldlM (fun f m => Fields.add? f m.1 m.2) {}).map Fields.toOptions := by
  obtain ⟨cs, hcs, hpadded⟩ := h
  have hself : members.map (fun m => (m.1, m.2)) = members := List.map_id' members
  rw [← hself] at hcs
  have hread := (enters_reader.answers (outcome_readFields
    (fun m hm f => fieldAnswers_readField f m.1 (hvalues m hm)) hcs {})).run hpadded
  rw [← hread, ofJson?]
  cases reader.run text with
  | ok o => rfl
  | error p => rfl

theorem isValue_of_mem_textsOf (hvalues : ∀ m ∈ members, IsValue m.2) (name : String) :
    ∀ text ∈ textsOf name members, IsValue text :=
  List.forall_mem_map.2 fun m hm => hvalues m (List.mem_of_mem_filter hm)

theorem ofJson?_eq_ok_iff (hvalues : ∀ m ∈ members, IsValue m.2) (h : IsObjectText members text)
    {o : Options} : ofJson? text = .ok o ↔
      Gives booleanText true (textsOf "envFirst" members) o.environmentFirst ∧
      Gives integerText 64 (textsOf "maxDepth" members) o.maxDepth := by
  rw [← toOption_eq_some_iff, toOption_ofJson? hvalues h, foldlM_add?,
    gives_iff decodes_readEnvironmentFirst (isValue_of_mem_textsOf hvalues "envFirst"),
    gives_iff decodes_readMaxDepth (isValue_of_mem_textsOf hvalues "maxDepth")]
  refine ⟨fun h => ?_, fun ⟨⟨b?, hb, hfirst⟩, ⟨n?, hn, hdepth⟩⟩ => ?_⟩
  · obtain ⟨f, hf, rfl⟩ := Option.map_eq_some_iff.1 h
    obtain ⟨b?, hb, hf⟩ := Option.bind_eq_some_iff.1 hf
    obtain ⟨n?, hn, rfl⟩ := Option.map_eq_some_iff.1 hf
    exact ⟨⟨b?, hb, rfl⟩, ⟨n?, hn, rfl⟩⟩
  · obtain ⟨environmentFirst, maxDepth⟩ := o
    subst hfirst hdepth
    rw [hb, Option.bind_some, hn]
    rfl

end Reading

/-! ## Written options -/

/-- The members that are written for options. -/
def members (o : Options) : List (String × List Char) :=
  [("envFirst", booleanText o.environmentFirst), ("maxDepth", integerText o.maxDepth)]

theorem isValue_members (o : Options) : ∀ m ∈ o.members, IsValue m.2 :=
  List.forall_mem_cons.2 ⟨.boolean o.environmentFirst,
    List.forall_mem_singleton.2 (.number (spelled_renderInteger o.maxDepth.toNat))⟩

theorem isObjectText_toJson (o : Options) : IsObjectText o.members o.toJson :=
  (members_separated o.members).isObjectText String.toList_ofList

/-- The members whose names are known. -/
def known (members : List (String × List Char)) : List (String × List Char) :=
  members.filter fun m => m.1 = "envFirst" ∨ m.1 = "maxDepth"

theorem textsOf_known (members : List (String × List Char)) {name : String}
    (h : name = "envFirst" ∨ name = "maxDepth") :
    textsOf name (known members) = textsOf name members := by
  rw [textsOf, known, List.filter_filter, textsOf]
  refine congrArg _ (List.filter_congr fun m _ => ?_)
  by_cases hname : m.1 = name
  · rw [hname, decide_eq_true h, Bool.and_true]
  · rw [decide_eq_false hname, Bool.false_and]

theorem Gives.perm {α : Type} {render : α → List Char} {default a : α}
    {texts texts' : List (List Char)} (h : Gives render default texts a)
    (hperm : texts.Perm texts') : Gives render default texts' a := by
  cases h with
  | missing => exact List.nil_perm.1 hperm ▸ .missing
  | once => exact List.singleton_perm.1 hperm ▸ .once a

theorem ofJson?_toJson (o : Options) : ofJson? o.toJson = .ok o := by
  refine (ofJson?_eq_ok_iff o.isValue_members o.isObjectText_toJson).2 ⟨?_, ?_⟩
  · have htexts : textsOf "envFirst" o.members = [booleanText o.environmentFirst] := rfl
    rw [htexts]
    exact .once o.environmentFirst
  · have htexts : textsOf "maxDepth" o.members = [integerText o.maxDepth] := rfl
    rw [htexts]
    exact .once o.maxDepth

section Members

variable {members members' : List (String × List Char)} {text text' : String}

theorem exists_ok_iff (hvalues : ∀ m ∈ members, IsValue m.2) (h : IsObjectText members text) :
    (∃ o, ofJson? text = .ok o) ↔
      AtMostOne booleanText (textsOf "envFirst" members) ∧
      AtMostOne integerText (textsOf "maxDepth" members) := by
  rw [← @exists_gives_iff _ booleanText true, ← @exists_gives_iff _ integerText 64]
  refine ⟨fun ⟨o, ho⟩ => ?_, fun ⟨⟨b, hb⟩, ⟨n, hn⟩⟩ => ?_⟩
  · obtain ⟨hfirst, hdepth⟩ := (ofJson?_eq_ok_iff hvalues h).1 ho
    exact ⟨⟨_, hfirst⟩, ⟨_, hdepth⟩⟩
  · exact ⟨{ environmentFirst := b, maxDepth := n }, (ofJson?_eq_ok_iff hvalues h).2 ⟨hb, hn⟩⟩

/-- Only the members with known names matter, and their order does not. -/
theorem ok_of_perm (hvalues : ∀ m ∈ members, IsValue m.2) (h : IsObjectText members text)
    (hvalues' : ∀ m ∈ members', IsValue m.2) (h' : IsObjectText members' text')
    (hknown : (known members).Perm (known members')) {o : Options} (ho : ofJson? text = .ok o) :
    ofJson? text' = .ok o := by
  have htexts {name : String} (hname : name = "envFirst" ∨ name = "maxDepth") :
      (textsOf name members).Perm (textsOf name members') := by
    rw [← textsOf_known members hname, ← textsOf_known members' hname]
    exact (hknown.filter _).map _
  obtain ⟨hfirst, hdepth⟩ := (ofJson?_eq_ok_iff hvalues h).1 ho
  exact (ofJson?_eq_ok_iff hvalues' h').2
    ⟨hfirst.perm (htexts (.inl rfl)), hdepth.perm (htexts (.inr rfl))⟩

end Members

/-- **Options are read from the members under two names.** An object is read as options by the texts
of these members, and otherwise it is refused. Members of other names make no difference, nor does
the order of the members. Options are read from their own text, and from one in which other members
stand between theirs. -/
theorem ofJson?_of_isObjectText {members : List (String × List Char)} {text : String}
    (hvalues : ∀ m ∈ members, IsValue m.2) (htext : IsObjectText members text) :
    (∀ o, ofJson? text = .ok o ↔
        Gives booleanText true (textsOf "envFirst" members) o.environmentFirst ∧
        Gives integerText 64 (textsOf "maxDepth" members) o.maxDepth) ∧
      ((∃ o, ofJson? text = .ok o) ↔
        AtMostOne booleanText (textsOf "envFirst" members) ∧
        AtMostOne integerText (textsOf "maxDepth" members)) ∧
      (¬(AtMostOne booleanText (textsOf "envFirst" members) ∧
          AtMostOne integerText (textsOf "maxDepth" members)) →
        ∃ e : InvalidOptions, ofJson? text = .error e) ∧
      (∀ members' text', (∀ m ∈ members', IsValue m.2) → IsObjectText members' text' →
        (known members').Perm (known members) →
        ∀ o, ofJson? text' = .ok o ↔ ofJson? text = .ok o) ∧
      ∀ o : Options, ofJson? o.toJson = .ok o ∧
        (known members = o.members → ofJson? text = .ok o) := by
  have hshape := exists_ok_iff hvalues htext
  refine ⟨fun _ => ofJson?_eq_ok_iff hvalues htext, hshape, fun hnone => ?_, ?_, fun o => ?_⟩
  · cases hresult : ofJson? text with
    | ok o => exact absurd (hshape.1 ⟨o, hresult⟩) hnone
    | error e => exact ⟨e, rfl⟩
  · intro members' text' hvalues' htext' hknown o
    exact ⟨ok_of_perm hvalues' htext' hvalues htext hknown,
      ok_of_perm hvalues htext hvalues' htext' hknown.symm⟩
  · refine ⟨o.ofJson?_toJson, fun hknown => ?_⟩
    have hmembers : known o.members = known members := by
      rw [hknown]
      rfl
    exact ok_of_perm o.isValue_members o.isObjectText_toJson hvalues htext (.of_eq hmembers)
      o.ofJson?_toJson

/-- Between the known members stand others, with a number that is out of range and a string with
half of a pair of surrogates. -/
def unknownMembers : String :=
  "\x7b\"x\":[1e999, \"\\ud800\"],\"envFirst\":false,\"x\":\x7b\x7d," ++
    "\"maxDepth\":18446744073709551615,\"\":null\x7d"

namespace unknownMembers

def outOfRange : Numeral where
  negative := false
  whole := ['1']
  fraction := none
  exponent := some (false, ['9', '9', '9'])

def options : Options := { environmentFirst := false, maxDepth := 18446744073709551615 }

def members : List (String × List Char) := [
  ("x", "[1e999, \"\\ud800\"]".toList),
  ("envFirst", booleanText options.environmentFirst),
  ("x", "\x7b\x7d".toList),
  ("maxDepth", integerText options.maxDepth),
  ("", "null".toList)]

/-- The known members alone, in the other order. -/
def reversed : String := "\x7b\"maxDepth\":18446744073709551615,\"envFirst\":false\x7d"

end unknownMembers

open unknownMembers in
theorem isValue_unknownMembers : ∀ m ∈ unknownMembers.members, IsValue m.2 := by
  have hspace : Blank [' '] := List.forall_mem_singleton.2 rfl
  have hnumber : IsValue ['1', 'e', '9', '9', '9'] := by
    have hwhole : IsWhole ['1'] := isWhole_toDigits 1
    have hpower : IsDigits ['9', '9', '9'] := (isWhole_toDigits 999).toIsDigits
    have hspelled : outOfRange.Spelled _ := .intro hwhole .none (.digits (.inl rfl) .none hpower)
    exact .number hspelled
  have hstring : IsValue ['"', '\\', 'u', 'd', '8', '0', '0', '"'] := by
    have hzero : IsHexDigit 0 '0' := isHexDigit_digitChar (Nat.zero_lt_succ 15)
    have hunit := IsUnit.digits (isHexDigit_digitChar (by omega : 13 < 16))
      (isHexDigit_digitChar (by omega : 8 < 16)) hzero hzero
    exact .string (.quoted (.unit hunit .nil))
  have hlisted : Listed [_, _] _ :=
    .cons (.self ['1', 'e', '9', '9', '9']) (.cons (@Padded.intro
      ['"', '\\', 'u', 'd', '8', '0', '0', '"'] [' '] [] hspace .nil) .nil)
  have harray := IsValue.array hlisted
    (List.forall_mem_cons.2 ⟨hnumber, List.forall_mem_singleton.2 hstring⟩)
  have hobject : IsValue ['{', '}'] :=
    @IsValue.object [] [] ⟨[], .nil .nil, .nil⟩ (List.forall_mem_nil _)
  exact List.forall_mem_cons.2 ⟨harray, List.forall_mem_cons.2 ⟨.boolean false,
    List.forall_mem_cons.2 ⟨hobject, List.forall_mem_cons.2
      ⟨isValue_members options _ (.tail _ (.head _)), List.forall_mem_singleton.2 .null⟩⟩⟩⟩

open unknownMembers in
theorem unknownMembers_read :
    ("x", "[1e999, \"\\ud800\"]".toList) ∈ unknownMembers.members ∧
      (∀ m ∈ unknownMembers.members, IsValue m.2) ∧
      IsObjectText unknownMembers.members unknownMembers ∧
      ofJson? unknownMembers = .ok options ∧ ofJson? reversed = .ok options := by
  have htext : IsObjectText unknownMembers.members unknownMembers :=
    (members_separated unknownMembers.members).isObjectText (by decide +kernel)
  have htext' : IsObjectText options.members.reverse reversed :=
    (members_separated options.members.reverse).isObjectText (by decide +kernel)
  have hvalues' : ∀ m ∈ options.members.reverse, IsValue m.2 :=
    fun m hm => options.isValue_members m (List.mem_reverse.1 hm)
  obtain ⟨-, -, -, hperm, hread⟩ := ofJson?_of_isObjectText isValue_unknownMembers htext
  have hknown : known unknownMembers.members = options.members := rfl
  have hreversed : (known options.members.reverse).Perm (known unknownMembers.members) :=
    List.reverse_perm options.members
  have hok := (hread options).2 hknown
  have hok' := (hperm _ _ hvalues' htext' hreversed options).2 hok
  exact ⟨.head _, isValue_unknownMembers, htext, hok, hok'⟩

end Options

end VarSubst
