import VarSubst.Reference
import VarSubst.Text.ByteSize

/-!
# Templates

A template is a text seen as a sequence of literal characters and references. `Template.ofText`
finds the references from left to right: where a text begins with a reference, that reference is
taken and the search goes on behind it, and elsewhere one character is taken literally.
`Template.references` lists the references with their places, counted in bytes of the text's UTF-8
form.
-/

namespace VarSubst

inductive Segment where
  | literal (c : Char)
  | reference (r : Reference)
  deriving DecidableEq, Repr

def Segment.render : Segment → List Char
  | .literal c => [c]
  | .reference r => r.render

abbrev Template := List Segment

/-- A reference and where it stands: the bytes from `start` up to, not including, `stop`. -/
structure Placed where
  reference : Reference
  start : Nat
  stop : Nat
  deriving DecidableEq, Repr

namespace Template

def render (t : Template) : List Char := t.flatMap Segment.render

/-- Goes on behind the segments in `done` (last one first); the next `skip` characters belong to the
last of them. -/
def ofCharsFrom (done : Template) : Nat → List Char → Template
  | _, [] => done.reverse
  | skip + 1, _ :: cs => ofCharsFrom done skip cs
  | 0, c :: cs =>
    match Reference.ofPrefix? (c :: cs) with
    | some r => ofCharsFrom (.reference r :: done) (r.render.length - 1) cs
    | none => ofCharsFrom (.literal c :: done) 0 cs

def ofChars (cs : List Char) : Template := ofCharsFrom [] 0 cs

def ofText (text : String) : Template := ofChars text.toList

/-- The references of a template that starts at byte `start`, with their places. -/
def placed (start : Nat) : Template → List Placed
  | [] => []
  | .literal c :: t => placed (start + c.utf8Size) t
  | .reference r :: t =>
    let stop := start + Text.byteSize r.render
    { reference := r, start, stop } :: placed stop t

/-- The references of a text, from left to right. -/
def references (text : String) : List Placed := placed 0 (ofText text)

/-! ## Equations -/

theorem ofCharsFrom_eq (done : Template) (skip : Nat) (cs : List Char) :
    ofCharsFrom done skip cs = done.reverse ++ ofChars (cs.drop skip) := by
  have key : ∀ (cs : List Char) (done : Template) (skip : Nat),
      ofCharsFrom done skip cs = done.reverse ++ ofCharsFrom [] 0 (cs.drop skip) := by
    intro cs
    induction cs with
    | nil => intro done skip; simp [ofCharsFrom]
    | cons c cs ih =>
      intro done skip
      cases skip with
      | succ skip => simpa [ofCharsFrom] using ih done skip
      | zero =>
        simp only [ofCharsFrom, List.drop_zero]
        cases Reference.ofPrefix? (c :: cs) with
        | none => simp only [ih (_ :: _), List.reverse_cons, List.append_assoc]; simp
        | some r => simp only [ih (_ :: _), List.reverse_cons, List.append_assoc]; simp
  exact key cs done skip

@[simp] theorem ofChars_nil : ofChars [] = [] := rfl

theorem ofChars_cons_of_none {c : Char} {cs : List Char}
    (h : Reference.ofPrefix? (c :: cs) = none) : ofChars (c :: cs) = .literal c :: ofChars cs := by
  rw [ofChars, ofCharsFrom, h]
  simp [ofCharsFrom_eq]

theorem ofChars_append_of_some {r : Reference} {rest : List Char}
    (h : Reference.ofPrefix? (r.render ++ rest) = some r) :
    ofChars (r.render ++ rest) = .reference r :: ofChars rest := by
  obtain ⟨c, cs, hc⟩ := List.exists_cons_of_ne_nil r.render_ne_nil
  rw [hc, List.cons_append] at h ⊢
  rw [ofChars, ofCharsFrom, h]
  simp [ofCharsFrom_eq, hc]

end Template

end VarSubst
