import VarSubst.Proofs.Grammar
import VarSubst.Template

/-!
# The references of a text

The search for references takes a text apart from the left (`Template.scan_induction`) and loses no
character (`Template.render_ofChars`).

A place of a text at which the grammar spells a reference is a match (`Placed.MatchesIn`); one byte
begins at most one match. Matches may overlap, as a default may hold references. `Lists` says which
of them a list picks: its spans follow one another without overlap, and a match that it leaves out
begins inside one that it takes. Exactly one list does so, and it is the one that the search for
references finds (`Lists.iff_eq_placed`).
-/

namespace VarSubst

/-! ## Taking a text apart -/

namespace Template

/-- The search takes a text apart from the left: one character where no reference begins, and the
written form of a reference where one does. -/
theorem scan_induction {motive : List Char → Prop} (nil : motive [])
    (literal : ∀ c cs, Reference.ofPrefix? (c :: cs) = none → motive cs → motive (c :: cs))
    (reference : ∀ r rest, Reference.ofPrefix? (r.render ++ rest) = some r → motive rest →
      motive (r.render ++ rest))
    (cs : List Char) : motive cs := by
  induction hn : cs.length using Nat.strongRecOn generalizing cs with
  | ind n ih =>
    subst hn
    cases cs with
    | nil => exact nil
    | cons c cs =>
      cases h : Reference.ofPrefix? (c :: cs) with
      | none => exact literal c cs h (ih cs.length (by simp) cs rfl)
      | some r =>
        obtain ⟨rest, hr⟩ := Reference.render_prefix_of_ofPrefix? h
        have hlen : rest.length < (c :: cs).length := by
          have := List.length_pos_iff.2 r.render_ne_nil
          rw [hr, List.length_append]
          omega
        rw [hr] at h ⊢
        exact reference r rest h (ih rest.length hlen rest rfl)

/-- The segments of a text spell the text. -/
theorem render_ofChars (cs : List Char) : render (ofChars cs) = cs := by
  induction cs using scan_induction with
  | nil => rfl
  | literal c cs h ih =>
    rw [ofChars_cons_of_none h]
    simpa [render, Segment.render] using ih
  | reference r rest h ih =>
    rw [ofChars_append_of_some h]
    simpa [render, Segment.render] using ih

/-- The references with their places are those of the template. -/
theorem exists_mem_placed_iff {origin : Nat} {t : Template} {r : Reference} :
    (∃ p ∈ placed origin t, p.reference = r) ↔ .reference r ∈ t := by
  induction t generalizing origin with
  | nil => simp [placed]
  | cons segment t ih =>
    cases segment with
    | literal c => simp [placed, ih]
    | reference r' => simp [placed, ih, @eq_comm _ r' r]

theorem le_start_of_mem_placed {origin : Nat} {t : Template} {p : Placed}
    (h : p ∈ placed origin t) : origin ≤ p.start := by
  induction t generalizing origin with
  | nil => cases h
  | cons segment t ih =>
    cases segment with
    | literal c => exact Nat.le_trans (Nat.le_add_right _ _) (ih h)
    | reference r =>
      rcases List.mem_cons.1 h with rfl | h
      · exact Nat.le_refl _
      · exact Nat.le_trans (Nat.le_add_right _ _) (ih h)

/-- The written form of each segment stands in the text. -/
theorem render_infix_of_mem {t : Template} {segment : Segment} (h : segment ∈ t) :
    segment.render <:+: t.render := by
  obtain ⟨before, after, rfl⟩ := List.append_of_mem h
  exact ⟨render before, render after, by simp [render]⟩

/-- References are found to keys only. -/
theorem isKey_of_mem {cs : List Char} {r : Reference} (h : .reference r ∈ ofChars cs) :
    isKey r.key := by
  induction cs using scan_induction with
  | nil => cases h
  | literal c cs hread ih =>
    rw [ofChars_cons_of_none hread] at h
    cases h with
    | tail _ h => exact ih h
  | reference r' rest hread ih =>
    rw [ofChars_append_of_some hread] at h
    cases h with
    | tail _ h => exact ih h
    | head =>
      obtain ⟨written, rest', -, hspelled⟩ := Reference.ofPrefix?_eq_some_iff.1 hread
      exact hspelled.isKey

end Template

/-! ## Matches -/

/-- The reference is spelled in a text whose first byte is byte `origin`, at the place it names. -/
def Placed.MatchesIn (origin : Nat) (cs : List Char) (p : Placed) : Prop :=
  ∃ before written rest, cs = before ++ (written ++ rest) ∧ p.reference.Spelled written rest ∧
    p.start = origin + Text.byteSize before ∧ p.stop = p.start + Text.byteSize written

/-- The reference is spelled in the text, at the place it names. -/
def Placed.Matches (text : String) (p : Placed) : Prop := p.MatchesIn 0 text.toList

/-- The list picks matches of a text that begins at byte `origin`: one behind the other, and so that
no match begins outside those picked. -/
structure Lists (origin : Nat) (cs : List Char) (found : List Placed) : Prop where
  ordered : found.Pairwise fun p q => p.stop ≤ q.start
  sound : ∀ p ∈ found, p.MatchesIn origin cs
  complete : ∀ p : Placed, p.MatchesIn origin cs → ∃ q ∈ found, q.start ≤ p.start ∧ p.start < q.stop

namespace Placed.MatchesIn

theorem origin_le {origin : Nat} {cs : List Char} {p : Placed} (h : p.MatchesIn origin cs) :
    origin ≤ p.start := by
  obtain ⟨before, written, rest, -, -, hstart, -⟩ := h
  omega

theorem start_lt_stop {origin : Nat} {cs : List Char} {p : Placed} (h : p.MatchesIn origin cs) :
    p.start < p.stop := by
  obtain ⟨before, written, rest, -, hspelled, -, hstop⟩ := h
  have := Text.byteSize_pos hspelled.ne_nil
  omega

theorem not_nil {origin : Nat} {p : Placed} : ¬p.MatchesIn origin [] := by
  rintro ⟨before, written, rest, hcs, hspelled, -, -⟩
  have := congrArg List.length hcs
  have := List.length_pos_iff.2 hspelled.ne_nil
  simp only [List.length_nil, List.length_append] at *
  omega

/-- A match begins with the text, and is then the reference read there, or it begins later. -/
theorem cons_iff {origin : Nat} {c : Char} {cs : List Char} {p : Placed} :
    p.MatchesIn origin (c :: cs) ↔
      (Reference.ofPrefix? (c :: cs) = some p.reference ∧ p.start = origin ∧
        p.stop = origin + Text.byteSize p.reference.render) ∨
      p.MatchesIn (origin + c.utf8Size) cs := by
  constructor
  · rintro ⟨before, written, rest, hcs, hspelled, hstart, hstop⟩
    cases before with
    | nil =>
      rw [List.nil_append] at hcs
      rw [Text.byteSize_nil, Nat.add_zero] at hstart
      rw [hcs, hspelled.render_eq]
      exact .inl ⟨hspelled.ofPrefix?, hstart, by rw [hstop, hstart]⟩
    | cons d before =>
      cases hcs
      refine .inr ⟨before, written, rest, rfl, hspelled, ?_, hstop⟩
      rw [hstart, Text.byteSize_cons, Nat.add_assoc]
  · rintro (⟨h, hstart, hstop⟩ | ⟨before, written, rest, rfl, hspelled, hstart, hstop⟩)
    · obtain ⟨written, rest, hcs, hspelled⟩ := Reference.ofPrefix?_eq_some_iff.1 h
      refine ⟨[], written, rest, hcs, hspelled, hstart, ?_⟩
      rw [hstop, hstart, hspelled.render_eq]
    · refine ⟨c :: before, written, rest, rfl, hspelled, ?_, hstop⟩
      rw [hstart, Text.byteSize_cons, Nat.add_assoc]

/-- A match that begins behind `before` is a match of what stands there. -/
theorem append_iff {origin : Nat} {before cs : List Char} {p : Placed}
    (hp : origin + Text.byteSize before ≤ p.start) :
    p.MatchesIn origin (before ++ cs) ↔ p.MatchesIn (origin + Text.byteSize before) cs := by
  induction before generalizing origin with
  | nil => simp
  | cons c before ih =>
    rw [Text.byteSize_cons, ← Nat.add_assoc] at hp ⊢
    rw [List.cons_append, cons_iff, ih hp]
    have hc := c.utf8Size_pos
    constructor
    · rintro (⟨-, hstart, -⟩ | h)
      · omega
      · exact h
    · exact .inr

/-- One byte begins at most one match. -/
theorem unique {origin : Nat} {cs : List Char} {p q : Placed} (hp : p.MatchesIn origin cs)
    (hq : q.MatchesIn origin cs) (h : p.start = q.start) : p = q := by
  induction cs generalizing origin with
  | nil => exact absurd hp not_nil
  | cons c cs ih =>
    have hc := c.utf8Size_pos
    rcases cons_iff.1 hp with ⟨hpr, hps, hpe⟩ | hp' <;>
      rcases cons_iff.1 hq with ⟨hqr, hqs, hqe⟩ | hq'
    · rw [hpr, Option.some.injEq] at hqr
      cases p
      cases q
      simp_all
    · have := hq'.origin_le
      omega
    · have := hp'.origin_le
      omega
    · exact ih hp' hq'

end Placed.MatchesIn

/-! ## The search -/

namespace Lists

theorem nil_iff {origin : Nat} {found : List Placed} : Lists origin [] found ↔ found = [] := by
  constructor
  · intro h
    apply List.eq_nil_iff_forall_not_mem.2
    intro p hp
    exact Placed.MatchesIn.not_nil (h.sound p hp)
  · rintro rfl
    exact ⟨.nil, fun p hp => absurd hp List.not_mem_nil,
      fun p hp => absurd hp Placed.MatchesIn.not_nil⟩

/-- A character at which no reference begins is passed over. -/
theorem cons_iff_of_none {origin : Nat} {c : Char} {cs : List Char} {found : List Placed}
    (h : Reference.ofPrefix? (c :: cs) = none) :
    Lists origin (c :: cs) found ↔ Lists (origin + c.utf8Size) cs found := by
  have hmatch (p : Placed) :
      p.MatchesIn origin (c :: cs) ↔ p.MatchesIn (origin + c.utf8Size) cs := by
    rw [Placed.MatchesIn.cons_iff, h]
    simp
  constructor
  · intro H
    exact ⟨H.ordered, fun p hp => (hmatch p).1 (H.sound p hp),
      fun p hp => H.complete p ((hmatch p).2 hp)⟩
  · intro H
    exact ⟨H.ordered, fun p hp => (hmatch p).2 (H.sound p hp),
      fun p hp => H.complete p ((hmatch p).1 hp)⟩

/-- A reference with which the text begins is picked, and what is picked next begins behind it. -/
theorem append_iff_of_some {origin : Nat} {r : Reference} {rest : List Char}
    {found : List Placed} (h : Reference.ofPrefix? (r.render ++ rest) = some r) :
    Lists origin (r.render ++ rest) found ↔
      ∃ tail, found = ⟨r, origin, origin + Text.byteSize r.render⟩ :: tail ∧
        Lists (origin + Text.byteSize r.render) rest tail := by
  generalize hstop : origin + Text.byteSize r.render = stop
  have hhead : (⟨r, origin, stop⟩ : Placed).MatchesIn origin (r.render ++ rest) := by
    obtain ⟨written, rest', hcs, hspelled⟩ := Reference.ofPrefix?_eq_some_iff.1 h
    refine ⟨[], written, rest', hcs, hspelled, rfl, ?_⟩
    rw [← hspelled.render_eq]
    exact hstop.symm
  have htail {p : Placed} (hp : stop ≤ p.start) :
      p.MatchesIn origin (r.render ++ rest) ↔ p.MatchesIn stop rest := by
    rw [← hstop] at hp ⊢
    exact Placed.MatchesIn.append_iff hp
  constructor
  · intro H
    obtain ⟨q, hq, hle, -⟩ := H.complete _ hhead
    have hstart : q.start = origin := Nat.le_antisymm hle (H.sound q hq).origin_le
    obtain rfl := (H.sound q hq).unique hhead hstart
    cases found with
    | nil => cases hq
    | cons first tail =>
      obtain ⟨hfirst, hordered⟩ := List.pairwise_cons.1 H.ordered
      have hmatch := H.sound first List.mem_cons_self
      -- the match at the origin stands first, since nothing begins before it
      have : first = ⟨r, origin, stop⟩ := by
        rcases List.mem_cons.1 hq with rfl | hq
        · rfl
        · have := hfirst _ hq
          have := hmatch.origin_le
          have := hmatch.start_lt_stop
          dsimp only at *
          omega
      subst this
      refine ⟨tail, rfl, hordered, ?_, ?_⟩
      · intro p hp
        exact (htail (hfirst p hp)).1 (H.sound p (List.mem_cons_of_mem _ hp))
      · intro p hp
        have hp' := hp.origin_le
        obtain ⟨q, hq, hle, hlt⟩ := H.complete p ((htail hp').2 hp)
        rcases List.mem_cons.1 hq with rfl | hq
        · exact absurd hlt (Nat.not_lt.2 hp')
        · exact ⟨q, hq, hle, hlt⟩
  · rintro ⟨tail, rfl, H⟩
    have hle (p) (hp : p ∈ tail) : stop ≤ p.start := (H.sound p hp).origin_le
    refine ⟨List.pairwise_cons.2 ⟨hle, H.ordered⟩, ?_, ?_⟩
    · intro p hp
      rcases List.mem_cons.1 hp with rfl | hp
      · exact hhead
      · exact (htail (hle p hp)).2 (H.sound p hp)
    · intro p hp
      by_cases hstart : p.start < stop
      · exact ⟨_, List.mem_cons_self, hp.origin_le, hstart⟩
      · obtain ⟨q, hq, h⟩ := H.complete p ((htail (Nat.not_lt.1 hstart)).1 hp)
        exact ⟨q, List.mem_cons_of_mem _ hq, h⟩

/-- The search finds the one list of matches. -/
theorem iff_eq_placed {origin : Nat} {cs : List Char} {found : List Placed} :
    Lists origin cs found ↔ found = Template.placed origin (Template.ofChars cs) := by
  induction cs using Template.scan_induction generalizing origin found with
  | nil => exact nil_iff
  | literal c cs h ih =>
    rw [cons_iff_of_none h, ih, Template.ofChars_cons_of_none h]
    rfl
  | reference r rest h ih =>
    rw [append_iff_of_some h, Template.ofChars_append_of_some h]
    simp only [ih, exists_eq_right]
    rfl

end Lists

/-! ## Spans -/

/-- The bytes of a part of a text are those of its characters. -/
theorem Text.extract_toByteArray {text : String} {before written rest : List Char}
    (htext : text.toList = before ++ (written ++ rest)) :
    text.toByteArray.extract (byteSize before) (byteSize before + byteSize written) =
      (String.ofList written).toByteArray := by
  have htext : text = String.ofList before ++ String.ofList written ++ String.ofList rest := by
    rw [← String.ofList_append, ← String.ofList_append, List.append_assoc, ← htext,
      String.ofList_toList]
  have hsize (cs : List Char) : (String.ofList cs).toByteArray.size = byteSize cs := by
    rw [String.size_toByteArray, utf8ByteSize_ofList]
  have hstop : (String.ofList before ++ String.ofList written).toByteArray.size =
      byteSize before + byteSize written := by
    rw [String.toByteArray_append, ByteArray.size_append, hsize, hsize]
  rw [htext, String.toByteArray_append, ← hstop, ByteArray.extract_append_size_left,
    String.toByteArray_append]
  exact ByteArray.extract_append_eq_right (hsize before).symm (ByteArray.size_append ..)

/-- The bytes of a match are those of the written form of its reference. -/
theorem Placed.Matches.extract {text : String} {p : Placed} (h : p.Matches text) :
    text.toByteArray.extract p.start p.stop = (String.ofList p.reference.render).toByteArray := by
  obtain ⟨before, written, rest, hcs, hspelled, hstart, hstop⟩ := h
  rw [hstop, hstart, Nat.zero_add, hspelled.render_eq]
  exact Text.extract_toByteArray hcs

/-- The written form of a match, as a text of its own, holds that reference only. -/
theorem Placed.Matches.references {text : String} {p : Placed} (h : p.Matches text) :
    Template.references (String.ofList p.reference.render) =
      [⟨p.reference, 0, p.stop - p.start⟩] := by
  obtain ⟨before, written, rest, -, hspelled, -, hstop⟩ := h
  have hread := hspelled.alone.ofPrefix?
  rw [← hspelled.render_eq] at hread hstop
  have halone := Template.ofChars_append_of_some hread
  rw [List.append_nil] at halone
  rw [Template.references, Template.ofText, String.toList_ofList, halone, hstop,
    Nat.add_sub_cancel_left]
  simp [Template.placed]

/-- **The search finds every reference once.** One byte of a text begins at most one match; the
references found are the one list that picks matches from left to right and leaves out none that
begins outside those picked; and each of them is written in the bytes of its span, which alone hold
that reference only. -/
theorem Template.references_spec (text : String) :
    (∀ p q : Placed, p.Matches text → q.Matches text → p.start = q.start → p = q) ∧
    (∀ found, Lists 0 text.toList found ↔ found = references text) ∧
    ∀ p ∈ references text,
      text.toByteArray.extract p.start p.stop = (String.ofList p.reference.render).toByteArray ∧
      references (String.ofList p.reference.render) = [⟨p.reference, 0, p.stop - p.start⟩] := by
  have hlists (found) : Lists 0 text.toList found ↔ found = references text := Lists.iff_eq_placed
  refine ⟨fun p q hp hq h => hp.unique hq h, hlists, ?_⟩
  intro p hp
  have hmatch : p.Matches text := ((hlists _).2 rfl).sound p hp
  exact ⟨hmatch.extract, hmatch.references⟩

/-- A braced form that is not closed is no reference, and what stands in its default is found. -/
example : Template.references "$\x7bA:-$B" = [⟨⟨"B", .bare⟩, 5, 7⟩] := by decide

end VarSubst
