import NginxInterface.ConfFile.ReadToken

/-! # Where the tokenizer finds its place again

A value printed into the file may be any text without quote characters. It can leave
the tokenizer inside a word, a comment or an escape, but never inside a quoted
string. From there the end of a block brings it back to the state in which it began,
unless it refuses the file.

What the tokenizer does depends on its flags and on whether words have been read,
not on the words. So finitely many states decide what a literal text does.
-/

namespace NginxInterface.ConfFile

open Foundation Js

namespace Scan

/-- No quoted string is open. A word, and the escape of a character in it, begins
with the first character after white space. -/
structure Unquoted (scan : Scan) : Prop where
  sQuoted : scan.sQuoted = false
  dQuoted : scan.dQuoted = false
  raw : scan.lastSpace = true ∨ scan.needSpace = true → scan.raw = []
  quoted : scan.quoted = true → scan.lastSpace = false ∧ scan.needSpace = false

instance (scan : Scan) : Decidable scan.Unquoted :=
  decidable_of_iff
    (scan.sQuoted = false ∧ scan.dQuoted = false ∧
      (scan.lastSpace = true ∨ scan.needSpace = true → scan.raw = []) ∧
      (scan.quoted = true → scan.lastSpace = false ∧ scan.needSpace = false))
    ⟨fun h => ⟨h.1, h.2.1, h.2.2.1, h.2.2.2⟩, fun h => ⟨h.1, h.2, h.3, h.4⟩⟩

theorem start_unquoted : start.Unquoted := ⟨rfl, rfl, fun _ => rfl, fun h => by cases h⟩

/-- If the character was accepted, no quoted string is open after it. -/
def LeavesUnquoted (result : Option (Scan × List Token)) : Prop :=
  ∀ next emitted, result = some (next, emitted) → next.Unquoted

theorem leaves_none : LeavesUnquoted none := by
  rintro _ _ ⟨⟩

theorem leaves_more {scan : Scan} (h : scan.Unquoted) : LeavesUnquoted (more scan) := by
  rintro _ _ ⟨⟩
  exact h

theorem leaves_done (token : Token) : LeavesUnquoted (done token) := by
  rintro _ _ ⟨⟩
  exact start_unquoted

variable {scan : Scan} {c : Char}

theorem first_unquoted (hsingle : c ≠ '\'') (hdouble : c ≠ '"') (h : scan.Unquoted)
    (hneed : scan.needSpace = false) : LeavesUnquoted (scan.first c) := by
  obtain ⟨hs, hd, hraw, hquoted⟩ := h
  unfold first
  split_ifs
  all_goals first
    | exact leaves_none
    | exact leaves_done _
    | exact leaves_more ⟨hs, hd, hraw, hquoted⟩
    | exact leaves_more ⟨hs, hd, by simp [hneed], by simp [hneed]⟩

theorem found_unquoted (hs : scan.sQuoted = false) (hd : scan.dQuoted = false)
    (hquoted : scan.quoted = false) : LeavesUnquoted (scan.found c) := by
  unfold found
  split_ifs
  · exact leaves_done _
  · exact leaves_done _
  · exact leaves_more ⟨hs, hd, fun _ => rfl, by simp [hquoted]⟩

theorem inside_unquoted (h : scan.Unquoted) (hspace : scan.lastSpace = false)
    (hneed : scan.needSpace = false) (hquoted : scan.quoted = false) :
    LeavesUnquoted (scan.inside c) := by
  obtain ⟨hs, hd, -, -⟩ := h
  simp only [inside, hs, hd, Bool.false_eq_true, if_false]
  split_ifs
  all_goals first
    | exact found_unquoted rfl rfl hquoted
    | exact leaves_more
        ⟨by simp [keep, hs], by simp [keep, hd], by simp [keep, hspace, hneed],
          by simp [keep, hspace, hneed]⟩

theorem plainChar_unquoted (hsingle : c ≠ '\'') (hdouble : c ≠ '"') (h : scan.Unquoted)
    (hneed : scan.needSpace = false) (hquoted : scan.quoted = false) :
    LeavesUnquoted (scan.plainChar c) := by
  unfold plainChar
  split_ifs with hspace
  · exact first_unquoted hsingle hdouble h hneed
  · exact inside_unquoted h (Bool.not_eq_true _ ▸ hspace) hneed hquoted

/-- Only a quote character opens a quoted string. -/
theorem readChar_unquoted (hsingle : c ≠ '\'') (hdouble : c ≠ '"') (h : scan.Unquoted) :
    LeavesUnquoted (scan.readChar c) := by
  have hline : (if c = '\n' then { scan with sharpComment := false } else scan).Unquoted := by
    split_ifs
    · exact ⟨h.sQuoted, h.dQuoted, h.raw, h.quoted⟩
    · exact h
  simp only [readChar]
  generalize (if c = '\n' then { scan with sharpComment := false } else scan) = scan at hline
  have hs := hline.sQuoted
  have hd := hline.dQuoted
  split_ifs with hcomment hescape hneed
  · exact leaves_more hline
  · obtain ⟨hspace, hneed⟩ := hline.quoted hescape
    exact leaves_more ⟨hs, hd, by simp [keep, hspace, hneed], by simp⟩
  · exact leaves_more ⟨hs, hd, fun _ => hline.raw (Or.inr hneed), by simp [hescape]⟩
  · exact leaves_done _
  · exact leaves_done _
  · exact plainChar_unquoted hsingle hdouble
      ⟨hs, hd, fun _ => hline.raw (Or.inr hneed), by simp [hescape]⟩ rfl (by simp [hescape])
  · exact leaves_none
  · exact plainChar_unquoted hsingle hdouble hline (by simpa using hneed) (by simpa using hescape)

/-! ## Shapes of states -/

/-- The state with given flags, standing for all states that differ from it in their
words alone. -/
def ofFlags (noArgs noRaw needSpace lastSpace sharpComment inVariable quoted sQuoted dQuoted :
    Bool) : Scan where
  args := if noArgs then [] else [[]]
  raw := if noRaw then [] else ['.']
  needSpace := needSpace
  lastSpace := lastSpace
  sharpComment := sharpComment
  inVariable := inVariable
  quoted := quoted
  sQuoted := sQuoted
  dQuoted := dQuoted

/-- The words are forgotten, apart from whether there are any. -/
def shape (scan : Scan) : Scan :=
  ofFlags scan.args.isEmpty scan.raw.isEmpty scan.needSpace scan.lastSpace scan.sharpComment
    scan.inVariable scan.quoted scan.sQuoted scan.dQuoted

theorem isEmpty_concat {α : Type} (list : List α) (last : α) :
    (list ++ [last]).isEmpty = false := by
  cases list <;> rfl

/-- States of one shape differ in their words only. -/
theorem exists_words_of_shape {left right : Scan} (h : left.shape = right.shape) :
    ∃ args raw, right = { left with args := args, raw := raw } ∧
      left.args.isEmpty = args.isEmpty ∧ left.raw.isEmpty = raw.isEmpty := by
  simp only [shape, ofFlags, Scan.mk.injEq] at h
  obtain ⟨hargs, hraw, hflags⟩ := h
  refine ⟨right.args, right.raw, ?_, ?_, ?_⟩
  · obtain ⟨⟩ := right
    simp_all only
  · cases hleft : left.args.isEmpty <;> cases hright : right.args.isEmpty <;>
      simp_all only [reduceCtorEq, if_true, if_false, Bool.false_eq_true]
  · cases hleft : left.raw.isEmpty <;> cases hright : right.raw.isEmpty <;>
      simp_all only [reduceCtorEq, if_true, if_false, Bool.false_eq_true]

/-- Both are refused, or both lead to states of one shape. -/
def Alike (left right : Option (Scan × List Token)) : Prop :=
  left.map (fun next => next.1.shape) = right.map fun next => next.1.shape

theorem alike_more {left right : Scan} (h : left.shape = right.shape) :
    Alike (more left) (more right) := congrArg some h

theorem alike_done (left right : Token) : Alike (done left) (done right) := rfl

theorem alike_ite {p q : Prop} [Decidable p] [Decidable q]
    {left right left' right' : Option (Scan × List Token)} (h : p ↔ q)
    (hthen : Alike left right) (helse : Alike left' right') :
    Alike (if p then left else left') (if q then right else right') := by
  by_cases hp : p
  · rwa [if_pos hp, if_pos (h.mp hp)]
  · rwa [if_neg hp, if_neg (mt h.mpr hp)]

theorem first_alike {left right : Scan} (h : left.shape = right.shape) (c : Char) :
    Alike (left.first c) (right.first c) := by
  obtain ⟨args, raw, rfl, hargs, hraw⟩ := exists_words_of_shape h
  have hnil : left.args = [] ↔ args = [] := by
    rw [← List.isEmpty_iff, ← List.isEmpty_iff, hargs]
  refine alike_ite Iff.rfl (alike_more h) ?_
  refine alike_ite Iff.rfl (alike_ite hnil rfl (alike_done _ _)) ?_
  refine alike_ite Iff.rfl (alike_ite hnil rfl (alike_done _ _)) ?_
  refine alike_ite Iff.rfl (alike_ite (not_congr hnil) rfl (alike_done _ _)) ?_
  repeat' first
    | exact alike_more (by simp only [shape, hargs, hraw])
    | refine alike_ite Iff.rfl ?_ ?_

theorem found_alike {left right : Scan} (h : left.shape = right.shape) (c : Char) :
    Alike (left.found c) (right.found c) := by
  obtain ⟨args, raw, rfl, hargs, hraw⟩ := exists_words_of_shape h
  refine alike_ite Iff.rfl (alike_done _ _) (alike_ite Iff.rfl (alike_done _ _) ?_)
  exact alike_more (by simp only [shape, isEmpty_concat])

theorem inside_alike {left right : Scan} (h : left.shape = right.shape) (c : Char) :
    Alike (left.inside c) (right.inside c) := by
  obtain ⟨args, raw, rfl, hargs, hraw⟩ := exists_words_of_shape h
  unfold inside
  repeat' first
    | exact alike_more (by simp only [shape, keep, isEmpty_concat, hargs])
    | exact found_alike (by simp only [shape, hargs, hraw]) c
    | refine alike_ite Iff.rfl ?_ ?_

theorem plainChar_alike {left right : Scan} (h : left.shape = right.shape) (c : Char) :
    Alike (left.plainChar c) (right.plainChar c) := by
  have hspace : left.shape.lastSpace = right.shape.lastSpace := congrArg lastSpace h
  exact alike_ite (Bool.eq_iff_iff.mp hspace) (first_alike h c) (inside_alike h c)

theorem readChar_alike {left right : Scan} (h : left.shape = right.shape) (c : Char) :
    Alike (left.readChar c) (right.readChar c) := by
  obtain ⟨args, raw, rfl, hargs, hraw⟩ := exists_words_of_shape h
  by_cases hline : c = '\n'
  all_goals
    simp only [readChar, hline, if_true, if_false]
    repeat' first
      | exact alike_done _ _
      | exact alike_more (by simp only [shape, keep, isEmpty_concat, hargs, hraw])
      | exact plainChar_alike (by simp only [shape, hargs, hraw]) _
      | refine alike_ite Iff.rfl ?_ ?_
      | rfl

end Scan

/-! ## Where a text leads -/

/-- From a state with the first property the text is refused or ends in a state with
the second one. -/
def Leads (source target : Scan → Prop) (text : Text) : Prop :=
  ∀ scan final : Scan, source scan → (scanText scan text).2 = some final → target final

variable {source middle target : Scan → Prop}

theorem Leads.nil (source : Scan → Prop) : Leads source source [] := by
  rintro scan _ hscan ⟨⟩
  exact hscan

/-- A text that is accepted splits into parts that are. -/
theorem scanText_append_eq_some {scan final : Scan} {first second : Text}
    (h : (scanText scan (first ++ second)).2 = some final) :
    ∃ between, (scanText scan first).2 = some between ∧
      (scanText between second).2 = some final := by
  unfold scanText at *
  rcases hfirst : transduce Scan.readChar scan first with ⟨emitted, _ | between⟩
  · rw [transduce_append_of_refused Scan.readChar second hfirst] at h
    cases h
  · rw [transduce_append Scan.readChar second hfirst] at h
    exact ⟨between, rfl, h⟩

theorem Leads.append {first second : Text} (hfirst : Leads source middle first)
    (hsecond : Leads middle target second) : Leads source target (first ++ second) := by
  intro scan final hscan hfinal
  obtain ⟨between, hbetween, hrest⟩ := scanText_append_eq_some hfinal
  exact hsecond between final (hfirst scan between hscan hbetween) hrest

/-- A character that opens no quoted string. -/
def notQuote (c : Char) : Bool := c ≠ '\'' && c ≠ '"'

theorem leads_of_notQuote {text : Text} (h : text.all notQuote = true) :
    Leads Scan.Unquoted Scan.Unquoted text := by
  intro scan final hscan hfinal
  refine transduce_invariant Scan.readChar (fun c => notQuote c = true) Scan.Unquoted ?_
    (List.all_eq_true.mp h) hscan hfinal
  intro state c next emitted hc hstate hread
  simp only [notQuote, Bool.and_eq_true, decide_eq_true_eq] at hc
  exact Scan.readChar_unquoted hc.1 hc.2 hstate next emitted hread

/-! ## Literal texts -/

/-- The property does not depend on the words. -/
def Shaped (property : Scan → Prop) : Prop := ∀ scan : Scan, property scan.shape ↔ property scan

theorem Scan.shape_shape (scan : Scan) : scan.shape.shape = scan.shape := by
  by_cases hargs : scan.args = [] <;> by_cases hraw : scan.raw = [] <;>
    simp [shape, ofFlags, hargs, hraw]

/-- What a text leads to from every shape, it leads to from every state. -/
theorem leads_of_flags {text : Text} (hunquoted : ∀ scan : Scan, source scan → scan.Unquoted)
    (hsource : Shaped source) (htarget : Shaped target)
    (h : ∀ noArgs noRaw needSpace lastSpace sharpComment inVariable quoted : Bool,
      let scan := Scan.ofFlags noArgs noRaw needSpace lastSpace sharpComment inVariable quoted
        false false
      source scan → ∀ final ∈ (scanText scan text).2, target final) :
    Leads source target text := by
  intro scan final hscan hfinal
  have hflags : scan.shape = Scan.ofFlags scan.args.isEmpty scan.raw.isEmpty scan.needSpace
      scan.lastSpace scan.sharpComment scan.inVariable scan.quoted false false := by
    rw [Scan.shape, (hunquoted scan hscan).sQuoted, (hunquoted scan hscan).dQuoted]
  -- the scanner looks at its words only through emptiness, so the flags stand for every state
  have hshapes := transduce_observe Scan.readChar Scan.shape
    (fun left right c hsame => Scan.readChar_alike hsame c) scan.shape_shape.symm text
  have hscanned : (transduce Scan.readChar scan text).2 = some final := hfinal
  rw [hscanned, Option.map_some, eq_comm, Option.map_eq_some_iff] at hshapes
  obtain ⟨other, hother, hsame⟩ := hshapes
  have hshape := (hsource scan).mpr hscan
  rw [hflags] at hother hshape
  have htargetOther := h _ _ _ _ _ _ _ hshape other hother
  exact (htarget final).mp (hsame ▸ (htarget other).mpr htargetOther)

namespace Scan

theorem unquoted_shaped : Shaped Unquoted := by
  intro scan
  have hraw : scan.shape.raw = [] ↔ scan.raw = [] := by simp [shape, ofFlags]
  constructor
  · intro h
    exact ⟨h.sQuoted, h.dQuoted, fun hspace => hraw.mp (h.raw hspace), h.quoted⟩
  · intro h
    exact ⟨h.sQuoted, h.dQuoted, fun hspace => hraw.mpr (h.raw hspace), h.quoted⟩

/-- Outside quoted strings and comments. -/
def AtLine (scan : Scan) : Prop := scan.Unquoted ∧ scan.sharpComment = false

instance (scan : Scan) : Decidable scan.AtLine := inferInstanceAs (Decidable (_ ∧ _))

theorem atLine_shaped : Shaped AtLine := fun scan => and_congr_left' (unquoted_shaped scan)

/-- Where a directive may begin. -/
def AtStart (scan : Scan) : Prop := scan = start

instance (scan : Scan) : Decidable scan.AtStart := inferInstanceAs (Decidable (_ = _))

theorem atStart_shaped : Shaped AtStart := by
  intro scan
  constructor
  · intro h
    simp only [AtStart, shape, ofFlags, start, Scan.mk.injEq] at h
    obtain ⟨args, raw⟩ := scan
    simp_all [AtStart, start]
  · rintro rfl
    rfl

end Scan

theorem Leads.of_unquoted {text : Text} (h : Leads Scan.Unquoted target text) :
    Leads Scan.AtLine target text := fun scan final hscan => h scan final hscan.1

theorem Leads.of_start {text : Text} (h : Leads Scan.Unquoted target text) :
    Leads Scan.AtStart target text :=
  fun scan final hscan => h scan final (hscan ▸ Scan.start_unquoted)

/-- A line break ends a comment. -/
theorem newline_leads : Leads Scan.Unquoted Scan.AtLine ['\n'] :=
  leads_of_flags (fun _ => id) Scan.unquoted_shaped Scan.atLine_shaped (by decide +kernel)

/-- The end of a block is refused after a word. Two blanks end the word even if the
line break before them was escaped. -/
theorem closeBlock_leads : Leads Scan.AtLine Scan.AtStart [' ', ' ', '}'] :=
  leads_of_flags (fun _ => And.left) Scan.atLine_shaped Scan.atStart_shaped (by decide +kernel)

theorem blank_leads : Leads Scan.AtLine Scan.AtLine [' '] :=
  leads_of_flags (fun _ => And.left) Scan.atLine_shaped Scan.atLine_shaped (by decide +kernel)

theorem blanks_leads (count : Nat) :
    Leads Scan.AtLine Scan.AtLine (List.replicate count ' ') := by
  induction count with
  | zero => exact .nil Scan.AtLine
  | succ count ih => exact blank_leads.append ih

theorem leads_start {text : Text} (h : (scanText .start text).2 = some .start) :
    Leads Scan.AtStart Scan.AtStart text := by
  rintro _ final rfl hfinal
  exact Option.some.inj (hfinal.symm.trans h)

end NginxInterface.ConfFile
