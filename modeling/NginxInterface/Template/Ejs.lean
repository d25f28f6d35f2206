import NginxInterface.Js.Value

/-! # Text segments of an EJS template

A template alternates literal text with tags. The tags `<%_` and `_%>` also eat
blanks: `<%_` the blanks before it, `_%>` the blanks after it and then one line
break. Which tags enclose a literal segment is fixed when the template is
compiled, whatever branch or loop the segment stands in.
-/

namespace NginxInterface.Ejs

open Js

/-- Whether a tag delimiter next to a segment is one of the slurping ones. The
two ends of the file count as plain. -/
inductive Tag where
  | plain
  | slurp
  deriving DecidableEq

def isBlank (c : Char) : Bool := c == ' ' || c == '\t'

/-- Remove a single leading line break. -/
def dropLineBreak : Text → Text
  | '\r' :: '\n' :: rest => rest
  | '\r' :: rest => rest
  | '\n' :: rest => rest
  | text => text

/-- The characters left between the tag that ends before them and the tag that
begins after them. -/
def slurp (before : Tag) (chars : Text) (after : Tag) : Text :=
  let chars := if after = .slurp then (chars.reverse.dropWhile isBlank).reverse else chars
  if before = .slurp then dropLineBreak (chars.dropWhile isBlank) else chars

/-- The output of a literal segment of the template. -/
def segment (before : Tag) (text : String) (after : Tag) : Text :=
  slurp before text.toList after

/-- A literal is the list of its characters. -/
theorem segment_ofList (before : Tag) (chars : Text) (after : Tag) :
    segment before (String.ofList chars) after = slurp before chars after := by
  rw [segment, String.toList_ofList]

/-- Append the parts of a template in order. The first part that throws ends the
rendering. -/
def cat : List (Except Fault Text) → Except Fault Text
  | [] => .ok []
  | part :: rest => do
      let head ← part
      let tail ← cat rest
      return head ++ tail

@[simp] theorem cat_nil : cat [] = .ok [] := rfl

@[simp] theorem cat_ok_cons (text : Text) (rest : List (Except Fault Text)) :
    cat (.ok text :: rest) = (cat rest).map fun tail => text ++ tail := by
  cases hrest : cat rest <;> simp [cat, hrest, bind, Except.bind, pure, Except.pure, Except.map]

theorem cat_error_cons (fault : Fault) (rest : List (Except Fault Text)) :
    cat (.error fault :: rest) = .error fault := rfl

/-- A rendering that succeeds splits into its first part and the rest. -/
theorem cat_cons_eq_ok {part : Except Fault Text} {rest : List (Except Fault Text)} {text : Text}
    (h : cat (part :: rest) = .ok text) :
    ∃ head tail, part = .ok head ∧ cat rest = .ok tail ∧ text = head ++ tail := by
  cases part with
  | error fault => cases h
  | ok head =>
      rw [cat_ok_cons] at h
      cases hrest : cat rest with
      | error fault => simp [hrest, Except.map] at h
      | ok tail =>
          rw [hrest] at h
          exact ⟨head, tail, rfl, rfl, (Except.ok.inj h).symm⟩

/-- The text of two lists of parts is the text of the first and then of the second. -/
theorem cat_append_eq_ok_iff {first second : List (Except Fault Text)} {text : Text} :
    cat (first ++ second) = .ok text ↔
      ∃ head tail, cat first = .ok head ∧ cat second = .ok tail ∧ text = head ++ tail := by
  induction first generalizing text with
  | nil => simp [eq_comm]
  | cons part rest ih =>
      constructor
      · intro h
        obtain ⟨head, tail, rfl, htail, rfl⟩ := cat_cons_eq_ok h
        obtain ⟨middle, last, hmiddle, hlast, rfl⟩ := ih.mp htail
        exact ⟨head ++ middle, last, by rw [cat_ok_cons, hmiddle]; rfl, hlast,
          (List.append_assoc _ _ _).symm⟩
      · rintro ⟨_, last, hhead, hlast, rfl⟩
        obtain ⟨head, middle, rfl, hmiddle, rfl⟩ := cat_cons_eq_ok hhead
        rw [List.cons_append, cat_ok_cons, ih.mpr ⟨middle, last, hmiddle, hlast, rfl⟩,
          List.append_assoc]
        rfl

/-- Every part of a rendering that succeeds has succeeded. -/
theorem cat_part_ok {parts : List (Except Fault Text)} {text : Text}
    (h : cat parts = .ok text) : ∀ part ∈ parts, ∃ piece, part = .ok piece := by
  induction parts generalizing text with
  | nil => simp
  | cons first rest ih =>
      obtain ⟨head, tail, rfl, hrest, _⟩ := cat_cons_eq_ok h
      intro part hpart
      rcases List.mem_cons.mp hpart with rfl | hmem
      · exact ⟨head, rfl⟩
      · exact ih hrest part hmem

/-- The text of a part stands in the text of the whole. -/
theorem part_isInfix_cat {parts : List (Except Fault Text)} {text piece : Text}
    (h : cat parts = .ok text) (hmem : .ok piece ∈ parts) : piece <:+: text := by
  induction parts generalizing text with
  | nil => cases hmem
  | cons first rest ih =>
      obtain ⟨head, tail, hfirst, hrest, rfl⟩ := cat_cons_eq_ok h
      rcases List.mem_cons.mp hmem with hhead | htail
      · rw [hfirst, Except.ok.injEq] at hhead
        exact hhead ▸ (List.prefix_append head tail).isInfix
      · exact (ih hrest htail).trans (List.suffix_append head tail).isInfix

/-- Whenever the first rendering succeeds, so does the second, and their lengths
differ as the two given lengths do. -/
def Shifts (old new : Nat) (first second : Except Fault Text) : Prop :=
  ∀ text, first = .ok text →
    ∃ replaced, second = .ok replaced ∧ replaced.length + old = text.length + new

theorem Shifts.ok (old new : Text) : Shifts old.length new.length (.ok old) (.ok new) := by
  rintro _ ⟨⟩
  exact ⟨new, rfl, Nat.add_comm _ _⟩

/-- Replacing one part shifts the whole as it shifts the part. -/
theorem Shifts.cat {old new : Nat} {first second : Except Fault Text}
    (h : Shifts old new first second) (before after : List (Except Fault Text)) :
    Shifts old new (cat (before ++ first :: after)) (cat (before ++ second :: after)) := by
  induction before with
  | nil =>
      intro text htext
      obtain ⟨piece, tail, hpiece, htail, rfl⟩ := cat_cons_eq_ok htext
      obtain ⟨replaced, rfl, hlength⟩ := h piece hpiece
      refine ⟨replaced ++ tail, by rw [List.nil_append, cat_ok_cons, htail]; rfl, ?_⟩
      simp only [List.length_append]
      omega
  | cons part rest ih =>
      intro text htext
      obtain ⟨head, tail, rfl, htail, rfl⟩ := cat_cons_eq_ok htext
      obtain ⟨replaced, hreplaced, hlength⟩ := ih tail htail
      refine ⟨head ++ replaced, by rw [List.cons_append, cat_ok_cons, hreplaced]; rfl, ?_⟩
      simp only [List.length_append]
      omega

/-- Renderings of different length are different. -/
theorem Shifts.ne {old new : Nat} {first second : Except Fault Text} {text : Text}
    (h : Shifts old new first second) (hne : old ≠ new) (htext : first = .ok text) :
    second ≠ .ok text := by
  obtain ⟨replaced, hreplaced, hlength⟩ := h text htext
  rw [hreplaced]
  rintro ⟨⟩
  omega

end NginxInterface.Ejs
