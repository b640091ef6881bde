import VarSubst.Proofs.Json.Fits

/-!
# Reading values

What a reader makes of a text must not hang on what stands around it (`Reader.Answers`). A list is
read by its items. A reader of fields goes through the members of an object as a fold over them
does (`outcome_readFields`): it fails where the fold fails. A value that fits is read from each of
its texts (`answers_readValue`).
-/

namespace VarSubst.Json

theorem toOption_eq_some_iff {ε α : Type} {x : Except ε α} {a : α} :
    x.toOption = some a ↔ x = .ok a := by
  cases x with
  | ok b => exact ⟨fun h => congrArg _ (Option.some.inj h), fun h => congrArg _ (Except.ok.inj h)⟩
  | error e => exact ⟨fun h => (nomatch h), fun h => (nomatch h)⟩

/-- What the reader makes of the text wherever it stands: it returns the value and leaves what is
behind the text, or it refuses the text if there is no value. Blanks may stand in front of the text,
and nothing behind it could belong to a number at its end. -/
def Reader.Answers {α : Type} (read : Reader α) (text : List Char) (a? : Option α) : Prop :=
  ∀ before rest, Blank before → EndsNumber rest →
    read.outcome (before ++ (text ++ rest)) = a?.map fun a => (a, rest)

namespace Reader.Answers

variable {α β : Type} {read : Reader α} {cs : List Char} {a? : Option α}

theorem map (h : read.Answers cs a?) (f : α → β) : (read.map f).Answers cs (a?.map f) := by
  intro before rest hbefore hrest
  rw [outcome_map, h before rest hbefore hrest, Option.map_map, Option.map_map]
  rfl

/-- The whole of a text is read. -/
theorem run (h : read.Answers cs a?) {text : String} (htext : Padded cs text.toList) :
    (read.run text).toOption = a? := by
  generalize hcs : text.toList = whole at htext
  obtain ⟨hbefore, hbehind⟩ := htext
  next before behind =>
  have hends : EndsNumber behind :=
    List.append_nil behind ▸ hbehind.endsNumber fun _ h => nomatch h
  have hread := h before behind hbefore hends
  rw [← hcs] at hread
  unfold Reader.run
  cases a? with
  | none =>
    obtain ⟨p, hp⟩ := outcome_eq_none_iff.1 hread
    rw [hp]
    rfl
  | some a =>
    obtain ⟨hlt, hok⟩ := outcome_eq_some_iff.1 hread
    rw [hok]
    simp only [bind, Except.bind, next?_blank hbehind]
    rfl

end Reader.Answers

/-! ## Heads -/

section Heads

variable {before : List Char}

theorem outcome_readHead_quote (h : Blank before) (cs : List Char) :
    readHead.outcome (before ++ '"' :: cs) =
      (readQuoted.outcome cs).map fun p => (.string p.1, p.2) := by
  obtain ⟨hlt, hnext⟩ := next?_append h (c := '"') rfl cs
  unfold Reader.outcome readHead
  rw [hnext]
  exact erase_map fun _ _ => rfl

theorem outcome_readHead_list (h : Blank before) (cs : List Char) :
    readHead.outcome (before ++ '[' :: cs) = some (.list, cs) := by
  obtain ⟨hlt, hnext⟩ := next?_append h (c := '[') rfl cs
  unfold Reader.outcome readHead
  rw [hnext]
  rfl

theorem outcome_readHead_object (h : Blank before) (cs : List Char) :
    readHead.outcome (before ++ '{' :: cs) = some (.object, cs) := by
  obtain ⟨hlt, hnext⟩ := next?_append h (c := '{') rfl cs
  unfold Reader.outcome readHead
  rw [hnext]
  rfl

theorem ne_of_startsNumber {c d : Char} (hc : startsNumber c) (hd : startsNumber d = false) :
    c ≠ d := by
  rintro rfl
  rw [hd] at hc
  cases hc

theorem isBlank_of_startsNumber {c : Char} (hc : startsNumber c) : isBlank c = false := by
  have hspace := ne_of_startsNumber (d := ' ') hc rfl
  have htab := ne_of_startsNumber (d := '\t') hc rfl
  have hnewline := ne_of_startsNumber (d := '\n') hc rfl
  have hreturn := ne_of_startsNumber (d := '\r') hc rfl
  simp [isBlank, hspace, htab, hnewline, hreturn]

/-- A number is told by its first character. -/
theorem outcome_readHead_number (h : Blank before) {c : Char} (hc : startsNumber c)
    (cs : List Char) :
    readHead.outcome (before ++ c :: cs) =
      (readNumber.outcome (c :: cs)).map fun p => (.number p.1, p.2) := by
  obtain ⟨hlt, hnext⟩ := next?_append h (isBlank_of_startsNumber hc) cs
  have hquote := ne_of_startsNumber (d := '"') hc rfl
  have hlist := ne_of_startsNumber (d := '[') hc rfl
  have hobject := ne_of_startsNumber (d := '{') hc rfl
  unfold Reader.outcome readHead
  rw [hnext]
  simp only [if_neg hquote, if_neg hlist, if_neg hobject, if_pos hc]
  exact erase_map fun _ _ => rfl

theorem Numeral.Spelled.exists_cons {n : Numeral} {cs : List Char} (h : n.Spelled cs) :
    ∃ c tail, cs = c :: tail ∧ startsNumber c := by
  obtain ⟨hwhole, -, -⟩ := h
  next negative whole _ _ _ _ =>
  cases negative with
  | true => exact ⟨_, _, rfl, rfl⟩
  | false =>
    obtain ⟨d, ds, rfl⟩ := List.exists_cons_of_ne_nil hwhole.ne_nil
    have hd : d.isDigit := hwhole.digit d List.mem_cons_self
    exact ⟨d, _, rfl, by rw [startsNumber, hd, Bool.or_true]⟩

theorem answers_readHead_null : readHead.Answers (render .null) (some .null) := by
  intro before rest hbefore _
  obtain ⟨hlt, hnext⟩ := next?_append hbefore (c := 'n') rfl (['u', 'l', 'l'] ++ rest)
  unfold Reader.outcome readHead
  rw [render, List.cons_append, hnext]
  rfl

theorem answers_readHead_boolean (b : Bool) :
    readHead.Answers (render (.boolean b)) (some (.boolean b)) := by
  intro before rest hbefore _
  cases b with
  | true =>
    obtain ⟨hlt, hnext⟩ := next?_append hbefore (c := 't') rfl (['r', 'u', 'e'] ++ rest)
    unfold Reader.outcome readHead
    rw [render, List.cons_append, hnext]
    rfl
  | false =>
    obtain ⟨hlt, hnext⟩ := next?_append hbefore (c := 'f') rfl
      (['a', 'l', 's', 'e'] ++ rest)
    unfold Reader.outcome readHead
    rw [render, List.cons_append, hnext]
    rfl

theorem answers_readHead_numeral {n : Numeral} {cs : List Char} (h : n.Spelled cs) :
    readHead.Answers cs (n.value?.map .number) := by
  intro before rest hbefore hrest
  have hnumber := outcome_readNumber h hrest
  obtain ⟨c, tail, rfl, hc⟩ := h.exists_cons
  rw [List.cons_append, outcome_readHead_number hbefore hc, ← List.cons_append, hnumber,
    Option.map_map, Option.map_map]
  rfl

theorem answers_readHead_string {s : String} {cs : List Char} (h : SpelledString s cs) :
    readHead.Answers cs (some (.string s)) := by
  obtain ⟨h⟩ := h
  intro before rest hbefore _
  rw [List.cons_append, List.append_assoc, outcome_readHead_quote hbefore, List.singleton_append,
    outcome_readQuoted h]
  rfl

/-- Values of one kind are read by their heads. -/
theorem outcome_readAs {α : Type} {wanted : String} {accept : Head → Option α} {cs : List Char} :
    (readAs wanted accept).outcome cs =
      (readHead.outcome cs).bind fun p => (accept p.1).map fun a => (a, p.2) := by
  refine erase_bind fun head rest => ?_
  cases haccept : accept head <;> simp only [haccept] <;> rfl

theorem Reader.Answers.readAs {α : Type} {wanted : String} {accept : Head → Option α}
    {cs : List Char} {head? : Option Head} (h : readHead.Answers cs head?) :
    (readAs wanted accept).Answers cs (head?.bind accept) := by
  intro before rest hbefore hrest
  rw [outcome_readAs, h before rest hbefore hrest]
  cases head? <;> rfl

end Heads

/-! ## Lists -/

/-- Where an item is looked for in the text, it is read from `start` on: the first one at once, and
the others behind a comma. -/
inductive Leads (start : List Char) : Bool → List Char → Prop
  | first : Leads start true start
  | comma {blanks : List Char} (h : Blank blanks) : Leads start false (blanks ++ ',' :: start)

/-- No blanks are in front of the text, and it is not the end of a list. -/
def OpensItem (text : List Char) : Prop :=
  ∃ c tail, text = c :: tail ∧ isBlank c = false ∧ c ≠ ']'

theorem Further.endsNumber {texts : List (List Char)} {cs rest : List Char} (h : Further texts cs)
    (hrest : EndsNumber rest) : EndsNumber (cs ++ rest) := by
  cases h with
  | nil => exact hrest
  | cons => exact .cons (by decide) _

/-- The texts that are left of a list, of which `tail` is the closing bracket and what is behind it.
Behind each of them, reading goes on at the next one. -/
inductive Remaining (tail : List Char) : Bool → List (List Char) → List Char → Prop
  | closed {first : Bool} {blanks : List Char} (h : Blank blanks) :
    Remaining tail first [] (blanks ++ tail)
  | item {first : Bool} {front text behind cs : List Char} {texts : List (List Char)}
      (hlead : Leads (front ++ (text ++ behind)) first cs) (hfront : Blank front)
      (hends : EndsNumber behind) (h : Remaining tail false texts behind) :
    Remaining tail first (text :: texts) cs

theorem Further.remaining {texts : List (List Char)} {blanks cs tail : List Char}
    (h : Further texts cs) (htail : EndsNumber tail) (hblanks : Blank blanks) :
    Remaining tail false texts (blanks ++ (cs ++ tail)) := by
  induction h generalizing blanks with
  | nil => exact .closed hblanks
  | @cons text _ cs' _ hpad hfurther ih =>
    obtain @⟨front, back, hfront, hback⟩ := hpad
    have hends : EndsNumber (back ++ (cs' ++ tail)) :=
      hback.endsNumber (hfurther.endsNumber htail)
    simp only [List.cons_append, List.append_assoc]
    exact .item (.comma hblanks) hfront hends (ih hback)

theorem Listed.remaining {texts : List (List Char)} {cs tail : List Char} (h : Listed texts cs)
    (htail : EndsNumber tail) : Remaining tail true texts (cs ++ tail) := by
  cases h with
  | nil hblank => exact .closed hblank
  | @cons text _ cs' _ hpad hfurther =>
    obtain @⟨front, back, hfront, hback⟩ := hpad
    have hends : EndsNumber (back ++ (cs' ++ tail)) :=
      hback.endsNumber (hfurther.endsNumber htail)
    simp only [List.append_assoc]
    exact .item .first hfront hends (hfurther.remaining htail hback)

section Lists

variable {α : Type} {item : Reader α} {before : List α} {first : Bool}
  {blanks text whole start cs rest : List Char}

theorem nextItem_closed (h : Blank blanks) (first : Bool) (rest : List Char) :
    ∃ hlt, nextItem first (blanks ++ ']' :: rest) = .ok (.closed ⟨rest, hlt⟩) := by
  obtain ⟨hlt, hnext⟩ := next?_append h (c := ']') rfl rest
  refine ⟨hlt, ?_⟩
  rw [nextItem, hnext]
  rfl

theorem nextItem_lead (hlead : Leads (blanks ++ (text ++ rest)) first cs) (h : Blank blanks)
    (hopens : OpensItem text) :
    ∃ hle, nextItem first cs = .ok (.item ⟨blanks ++ (text ++ rest), hle⟩) := by
  obtain ⟨c, tail, rfl, hc, hclose⟩ := hopens
  obtain ⟨hlt, hnext⟩ := next?_append h hc (tail ++ rest)
  cases hlead with
  | first =>
    refine ⟨Nat.le_refl _, ?_⟩
    rw [nextItem, List.cons_append, hnext]
    simp only [if_neg hclose, if_true]
    rfl
  | comma hblanks =>
    obtain ⟨hlt, hcomma⟩ := next?_append hblanks (c := ',') rfl
      (blanks ++ (c :: tail ++ rest))
    refine ⟨Nat.le_of_lt hlt, ?_⟩
    rw [nextItem, hcomma]
    simp only [List.cons_append, hnext, if_neg hclose]
    rfl

theorem readItems_closed (h : Blank blanks) (xs : Tail whole) (hxs : xs.1 = blanks ++ ']' :: rest) :
    erase (readItems item before first xs) = some (before.reverse, rest) := by
  obtain ⟨xs, hle⟩ := xs
  subst hxs
  obtain ⟨hlt, hclosed⟩ := nextItem_closed h first rest
  rw [readItems, hclosed]
  rfl

theorem readItems_item {a : α} (xs : Tail whole)
    (hlead : Leads (blanks ++ (text ++ rest)) first xs.1) (h : Blank blanks)
    (hopens : OpensItem text) (hitem : item.Answers text (some a)) (hrest : EndsNumber rest) :
    ∃ ys : Tail whole, ys.1 = rest ∧
      readItems item before first xs = readItems item (a :: before) false ys := by
  obtain ⟨hle, hnext⟩ := nextItem_lead hlead h hopens
  obtain ⟨hlt, hread⟩ := Reader.outcome_eq_some_iff.1 (hitem blanks rest h hrest)
  have := xs.2
  refine ⟨⟨rest, by omega⟩, rfl, ?_⟩
  rw [readItems, hnext]
  simp only [hread]

/-- The items that are left are read one by one. -/
theorem erase_readItems {items : List (α × List Char)} (xs : Tail whole)
    (h : Remaining (']' :: rest) first (items.map (·.2)) xs.1)
    (hopens : ∀ i ∈ items, OpensItem i.2) (hitems : ∀ i ∈ items, item.Answers i.2 (some i.1)) :
    erase (readItems item before first xs) = some (before.reverse ++ items.map (·.1), rest) := by
  -- `Remaining` is what each step keeps; `first` only tells where the step begins.
  induction items generalizing before first xs with
  | nil =>
    generalize hxs : xs.1 = ys at h
    cases h with
    | closed hblanks =>
      rw [List.map_nil, List.append_nil]
      exact readItems_closed hblanks xs hxs
  | cons i items ih =>
    rw [List.forall_mem_cons] at hopens hitems
    cases h with
    | item hlead hfront hends h =>
      obtain ⟨ys, rfl, hstep⟩ := readItems_item xs hlead hfront hopens.1 hitems.1 hends
      rw [hstep, ih ys h hopens.2 hitems.2, List.reverse_cons, List.append_assoc]
      rfl

/-- A list is read behind its opening bracket by its items. -/
theorem outcome_readList {items : List (α × List Char)} (h : Listed (items.map (·.2)) cs)
    (hopens : ∀ i ∈ items, OpensItem i.2) (hitems : ∀ i ∈ items, item.Answers i.2 (some i.1)) :
    (readList item).outcome (cs ++ ']' :: rest) = some (items.map (·.1), rest) :=
  erase_readItems (.whole _) (h.remaining (.cons (by decide) rest)) hopens hitems

end Lists

/-! ## Objects -/

/-- What comes of a member by the reader that is chosen for it: another state, or none where the
member is refused or its value is. -/
inductive FieldAnswers {σ : Type} (field : σ → String → Except Problem (Reader σ)) (state : σ)
    (name : String) (text : List Char) : Option σ → Prop
  | refused {p : Problem} (h : field state name = .error p) :
    FieldAnswers field state name text none
  | read {read : Reader σ} {state? : Option σ} (h : field state name = .ok read)
      (hread : read.Answers text state?) : FieldAnswers field state name text state?

section Objects

variable {σ μ : Type} {field : σ → String → Except Problem (Reader σ)} {state : σ} {first : Bool}
  {blanks whole cs rest : List Char}

theorem readColon_append (h : Blank blanks) (cs : List Char) :
    ∃ hlt, readColon (blanks ++ ':' :: cs) = .ok ⟨cs, hlt⟩ := by
  obtain ⟨hlt, hnext⟩ := next?_append h (c := ':') rfl cs
  refine ⟨hlt, ?_⟩
  rw [readColon, hnext]
  rfl

theorem nextMember_closed (h : Blank blanks) (first : Bool) (rest : List Char) :
    ∃ hlt, nextMember first (blanks ++ '}' :: rest) = .ok (.closed ⟨rest, hlt⟩) := by
  obtain ⟨hlt, hnext⟩ := next?_append h (c := '}') rfl rest
  refine ⟨hlt, ?_⟩
  rw [nextMember, hnext]
  rfl

theorem nextMember_lead {tail : List Char} (hlead : Leads (blanks ++ '"' :: tail) first cs)
    (h : Blank blanks) : ∃ hle, nextMember first cs = .ok (.item ⟨tail, hle⟩) := by
  obtain ⟨hlt, hnext⟩ := next?_append h (c := '"') rfl tail
  cases hlead with
  | first =>
    refine ⟨Nat.le_of_lt hlt, ?_⟩
    rw [nextMember, hnext]
    rfl
  | comma hblanks =>
    obtain ⟨hlt', hcomma⟩ := next?_append hblanks (c := ',') rfl (blanks ++ '"' :: tail)
    refine ⟨Nat.le_of_lt (Nat.lt_trans hlt hlt'), ?_⟩
    rw [nextMember, hcomma]
    simp only [hnext]
    rfl

theorem erase_readMembers_closed (h : Blank blanks) (xs : Tail whole)
    (hxs : xs.1 = blanks ++ '}' :: rest) :
    erase (readMembers field state first xs) = some (state, rest) := by
  obtain ⟨xs, hle⟩ := xs
  subst hxs
  obtain ⟨hlt, hclosed⟩ := nextMember_closed h first rest
  rw [readMembers, hclosed]
  rfl

/-- One member is read, and the others go on from the state that it leads to. -/
theorem erase_readMembers_member {name : String} {nameText value member : List Char}
    {state? : Option σ} (hname : SpelledString name nameText)
    (hmember : IsMember nameText value member) (hfield : FieldAnswers field state name value state?)
    (xs : Tail whole) (hlead : Leads (blanks ++ (member ++ rest)) first xs.1) (h : Blank blanks)
    (hrest : EndsNumber rest) :
    ∃ ys : Tail whole, ys.1 = rest ∧ erase (readMembers field state first xs) =
      state?.bind fun state' => erase (readMembers field state' false ys) := by
  obtain ⟨hchars⟩ := hname
  obtain @⟨behind, before, hbehind, hbefore⟩ := hmember
  simp only [List.cons_append, List.append_assoc, List.nil_append] at hlead
  obtain ⟨hle, hnext⟩ := nextMember_lead hlead h
  obtain ⟨hlt, hquoted⟩ := Reader.outcome_eq_some_iff.1
    (outcome_readQuoted hchars (behind ++ ':' :: (before ++ (value ++ rest))))
  obtain ⟨hlt', hcolon⟩ := readColon_append hbehind (before ++ (value ++ rest))
  have hle' : rest.length ≤ whole.length := by
    have := xs.2
    simp only [List.length_append, List.length_cons] at hle
    omega
  refine ⟨⟨rest, hle'⟩, rfl, ?_⟩
  rw [readMembers, hnext]
  simp only [hquoted]
  cases hfield with
  | refused hrefused =>
    simp only [hrefused]
    rfl
  | read hok hread =>
    have hvalue := hread before rest hbefore hrest
    simp only [hok, hcolon]
    cases state? with
    | none =>
      obtain ⟨p, hp⟩ := Reader.outcome_eq_none_iff.1 hvalue
      simp only [hp]
      rfl
    | some state' =>
      obtain ⟨hlt'', hp⟩ := Reader.outcome_eq_some_iff.1 hvalue
      simp only [hp]
      rfl

section Fold

variable {name : μ → String} {value : μ → List Char} {step : σ → μ → Option σ} {members : List μ}
  {texts : List (List Char)}

theorem erase_readMembers
    (hstep : ∀ m ∈ members, ∀ state, FieldAnswers field state (name m) (value m) (step state m))
    (xs : Tail whole) (h : Remaining ('}' :: rest) first texts xs.1)
    (hmembers : List.Forall₂
      (fun m text => ∃ n, SpelledString (name m) n ∧ IsMember n (value m) text) members texts) :
    erase (readMembers field state first xs) =
      (members.foldlM step state).map fun state' => (state', rest) := by
  induction members generalizing state first texts xs with
  | nil =>
    cases hmembers
    generalize hxs : xs.1 = ys at h
    cases h with
    | closed hblanks => exact erase_readMembers_closed hblanks xs hxs
  | cons m members ih =>
    rw [List.forall_mem_cons] at hstep
    cases hmembers with
    | cons hm hmembers =>
      obtain ⟨n, hname, hmember⟩ := hm
      cases h with
      | item hlead hfront hends h =>
        obtain ⟨ys, rfl, hread⟩ := erase_readMembers_member hname hmember (hstep.1 state) xs hlead
          hfront hends
        rw [hread, List.foldlM_cons]
        cases step state m with
        | none => rfl
        | some state' => exact ih hstep.2 ys h hmembers

/-- Where each field does what `step` does, an object is read behind its opening brace as `step`
goes through its members. -/
theorem outcome_readFields
    (hstep : ∀ m ∈ members, ∀ state, FieldAnswers field state (name m) (value m) (step state m))
    (h : Members SpelledString (members.map fun m => (name m, value m)) cs) (state : σ)
    (rest : List Char) :
    (readFields field state).outcome (cs ++ '}' :: rest) =
      (members.foldlM step state).map fun state' => (state', rest) := by
  obtain ⟨texts, hcs, hmembers⟩ := h
  rw [List.forall₂_map_left_iff] at hmembers
  exact erase_readMembers hstep (.whole _) (hcs.remaining (.cons (by decide) rest)) hmembers

end Fold

end Objects

section Pairs

variable {α μ : Type} {value : Reader α} {name : μ → String} {text : μ → List Char}
  {result? : μ → Option α} {members : List μ} {cs : List Char}

theorem foldlM_pairs (before : List (String × α)) :
    members.foldlM (fun before m => (result? m).map fun a => (name m, a) :: before) before =
      (members.mapM fun m => (result? m).map fun a => (name m, a)).map
        fun pairs => pairs.reverse ++ before := by
  induction members generalizing before with
  | nil => rfl
  | cons m members ih =>
    rw [List.foldlM_cons, List.mapM_cons]
    cases result? m with
    | none => rfl
    | some a =>
      refine (ih _).trans ?_
      cases members.mapM fun m => (result? m).map fun a => (name m, a) with
      | none => rfl
      | some pairs =>
        refine congrArg some ?_
        change pairs.reverse ++ (name m, a) :: before = ((name m, a) :: pairs).reverse ++ before
        rw [List.reverse_cons, List.append_assoc]
        rfl

/-- An object whose members are all of one kind is read member by member. -/
theorem outcome_readObject (hvalues : ∀ m ∈ members, value.Answers (text m) (result? m))
    (h : Members SpelledString (members.map fun m => (name m, text m)) cs) (rest : List Char) :
    (readObject value).outcome (cs ++ '}' :: rest) =
      (members.mapM fun m => (result? m).map fun a => (name m, a)).map
        fun pairs => (pairs, rest) := by
  have hstep : ∀ m ∈ members, ∀ before : List (String × α),
      FieldAnswers (fun before name => .ok (value.map fun a => (name, a) :: before)) before (name m)
        (text m) ((result? m).map fun a => (name m, a) :: before) :=
    fun m hm before => .read rfl ((hvalues m hm).map fun a => (name m, a) :: before)
  have hfields := outcome_readFields hstep h [] rest
  rw [foldlM_pairs] at hfields
  rw [readObject, Reader.outcome_map, hfields]
  simp only [Option.map_map, Function.comp_def, List.append_nil, List.reverse_reverse]

end Pairs

/-- The reader goes on as `inner` does behind the opening brace of an object. -/
def Reader.Enters {α β : Type} (read : Reader α) (inner : Reader β) (f : β → α) : Prop :=
  ∀ cs rest, readHead.outcome cs = some (.object, rest) →
    read.outcome cs = (inner.outcome rest).map fun p => (f p.1, p.2)

theorem Reader.Enters.answers {α β : Type} {read : Reader α} {inner : Reader β} {f : β → α}
    {cs : List Char} {b? : Option β} (h : read.Enters inner f)
    (hinner : ∀ rest, inner.outcome (cs ++ '}' :: rest) = b?.map fun b => (b, rest)) :
    read.Answers ('{' :: (cs ++ ['}'])) (b?.map f) := by
  intro before rest hbefore _
  simp only [List.cons_append, List.append_assoc, List.nil_append]
  rw [h _ _ (outcome_readHead_object hbefore _), hinner, Option.map_map, Option.map_map]
  rfl

/-! ## Values -/

/-- The value of a head that is a value as a whole. -/
def Head.scalar? : Head → Option Json
  | .null => some .null
  | .boolean b => some (.boolean b)
  | .number n => some (.number n)
  | .string s => some (.string s)
  | .list | .object => none

theorem outcome_readValueWith {list : Reader (List Json)} {object : Reader (List (String × Json))}
    {cs : List Char} :
    (readValueWith list object).outcome cs = (readHead.outcome cs).bind fun p =>
      match p.1 with
      | .list => (list.outcome p.2).map fun q => (.array q.1, q.2)
      | .object => (object.outcome p.2).map fun q => (.object q.1, q.2)
      | head => head.scalar?.map fun value => (value, p.2) := by
  refine erase_bind fun head rest => ?_
  cases head with
  | list => exact erase_map fun _ _ => rfl
  | object => exact erase_map fun _ _ => rfl
  | _ => rfl

theorem IsValue.opensItem {text : List Char} (h : IsValue text) : OpensItem text := by
  cases h with
  | boolean b => cases b <;> exact ⟨_, _, rfl, rfl, by decide⟩
  | number h =>
    obtain ⟨c, tail, hcs, hc⟩ := h.exists_cons
    exact ⟨c, tail, hcs, isBlank_of_startsNumber hc, ne_of_startsNumber hc rfl⟩
  | string h =>
    obtain ⟨-⟩ := h
    exact ⟨_, _, rfl, rfl, by decide⟩
  | _ => exact ⟨_, _, rfl, rfl, by decide⟩

/-- A value that starts with the head; of a number, the head may be another one. -/
inductive Head.Starts : Head → Json → Prop
  | null : Starts .null .null
  | boolean (b : Bool) : Starts (.boolean b) (.boolean b)
  | number (m n : Number) : Starts (.number m) (.number n)
  | string (s : String) : Starts (.string s) (.string s)
  | list (items : List Json) : Starts .list (.array items)
  | object (members : List (String × Json)) : Starts .object (.object members)

theorem Spelled.starts {value : Json} {before text rest cs : List Char} {head : Head}
    (h : Spelled value text) (hbefore : Blank before) (hrest : EndsNumber rest)
    (hhead : readHead.outcome (before ++ (text ++ rest)) = some (head, cs)) :
    head.Starts value := by
  cases h with
  | null =>
    rw [answers_readHead_null before rest hbefore hrest] at hhead
    cases hhead
    exact .null
  | boolean b =>
    rw [answers_readHead_boolean b before rest hbefore hrest] at hhead
    cases hhead
    exact .boolean b
  | integer n =>
    rw [answers_readHead_numeral (spelled_renderInteger n) before rest hbefore hrest,
      Option.map_map, Option.map_eq_some_iff] at hhead
    obtain ⟨m, -, heq⟩ := hhead
    cases heq
    exact .number m _
  | string h =>
    rw [answers_readHead_string h before rest hbefore hrest] at hhead
    cases hhead
    exact .string _
  | array _ _ =>
    rw [List.cons_append, outcome_readHead_list hbefore] at hhead
    cases hhead
    exact .list _
  | object _ _ =>
    rw [List.cons_append, outcome_readHead_object hbefore] at hhead
    cases hhead
    exact .object _

/-- A scalar is read at every depth. -/
theorem Reader.Answers.readValue_scalar {text : List Char} {head : Head} {value : Json}
    (h : readHead.Answers text (some head)) (hscalar : head.scalar? = some value) (depth : Nat) :
    (readValue depth).Answers text (some value) := by
  have key (list : Reader (List Json)) (object : Reader (List (String × Json))) :
      (readValueWith list object).Answers text (some value) := by
    intro before rest hbefore hrest
    rw [outcome_readValueWith, h before rest hbefore hrest]
    cases head <;> cases hscalar <;> rfl
  cases depth with
  | zero => exact key _ _
  | succ depth => exact key _ _

/-- A value that fits is read from each of its texts. -/
theorem answers_readValue {depth : Nat} {value : Json} {text : List Char} (h : Spelled value text)
    (hfits : Fits depth value) : (readValue depth).Answers text (some value) := by
  induction h generalizing depth with
  | null => exact answers_readHead_null.readValue_scalar rfl depth
  | boolean b => exact (answers_readHead_boolean b).readValue_scalar rfl depth
  | integer n =>
    cases hfits with
    | number hrange =>
      have hhead := answers_readHead_numeral (spelled_renderInteger n)
      rw [Numeral.value?_toDigits hrange] at hhead
      exact hhead.readValue_scalar rfl depth
  | string h => exact (answers_readHead_string h).readValue_scalar rfl depth
  | @array items cs hcs h ih =>
    generalize hvalues : items.map (·.1) = values at hfits
    cases hfits with
    | @array depth _ hfits =>
      subst hvalues
      rw [List.forall_mem_map] at hfits
      intro before rest hbefore _
      have hlist : (readList (readValue depth)).outcome (cs ++ ']' :: rest) = _ :=
        outcome_readList hcs (fun i hi => (h i hi).isValue.opensItem) fun i hi => ih i hi (hfits i hi)
      rw [readValue, outcome_readValueWith]
      simp only [List.cons_append, List.append_assoc, List.nil_append,
        outcome_readHead_list hbefore, Option.bind_some, hlist]
      rfl
  | @object members cs hcs h ih =>
    generalize hvalues : members.map (fun m => (m.1, m.2.1)) = values at hfits
    cases hfits with
    | @object depth _ hfits =>
      subst hvalues
      rw [List.forall_mem_map] at hfits
      have henters : (readValue (depth + 1)).Enters (readObject (readValue depth)) .object := by
        intro cs rest hhead
        rw [readValue, outcome_readValueWith, hhead]
        rfl
      have hanswers := henters.answers
        (outcome_readObject (fun m hm => ih m hm (hfits m hm)) hcs)
      have hpairs : (members.mapM fun m => (some m.2.1).map fun a => (m.1, a)) =
          some (members.map fun m => (m.1, m.2.1)) := List.mapM_pure
      rw [hpairs] at hanswers
      exact hanswers

end VarSubst.Json
