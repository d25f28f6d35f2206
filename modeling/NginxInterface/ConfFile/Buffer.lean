import NginxInterface.ConfFile.Directive
import NginxInterface.Foundation.Window

/-! # nginx's read buffer

The tokenizer reads the file through a buffer of 4096 bytes. When the buffer is used up, what
lies between `start` and the current position is moved to its front, and a file that leaves no
room behind it is refused with "too long parameter". The words are copied from the buffer.

`Scan.gauge` follows the number of bytes since `start` beside the state of the tokenizer.
`readFile_eq` says that this is all the buffer amounts to: a file is read as if it lay in memory as
a whole, unless the number reaches the size of the buffer before the end of the file.
-/

namespace NginxInterface.ConfFile

open Foundation Js

/-- `NGX_CONF_BUFFER`. -/
def confBuffer : Nat := 4096

/-- A byte of a file. The first byte of a character stands for it. The other bytes are none of
those that the tokenizer looks for. -/
abbrev Byte := Option Char

def charBytes (c : Char) : List Byte := some c :: List.replicate (c.utf8Size - 1) none

def bytes (text : Text) : List Byte := text.flatMap charBytes

/-- The characters that begin in a part of the file. -/
def charsOf (held : List Byte) : Text := held.filterMap id

namespace Scan

/-- Where a character leaves `start`: the next call of the tokenizer begins behind a token, and a
word begins with its first character, or behind its quote. -/
def mark (scan : Scan) (c : Char) (emitted : List Token) : Mark :=
  if emitted ≠ [] then .after
  else if scan.sharpComment || scan.quoted || isSpace c then .stay
  else if scan.lastSpace || scan.needSpace then if c = '"' ∨ c = '\'' then .after else .before
  else .stay

/-- The body of the loop for one byte, with the bytes since `start` in the buffer. -/
def readByte (scan : Scan) (held : List Byte) : Byte → Option (Scan × Mark × List Token)
  | some c => (readChar { scan with raw := charsOf held } c).map fun result =>
      (result.1, scan.mark c result.2, result.2)
  | none => some (scan, .stay, [])

/-- The body of the loop for the bytes of a character, with the number of bytes since `start`. -/
def gauge (scan : Scan) (held : Nat) (c : Char) : Option (Scan × Nat) :=
  (scan.readChar c).bind fun result =>
    let kept := (scan.mark c result.2).count held + (c.utf8Size - 1)
    if held < confBuffer ∧ kept ≤ confBuffer then some (result.1, kept) else none

def gaugeText (scan : Scan) (held : Nat) (text : Text) : Option (Scan × Nat) :=
  text.foldlM (fun state c => state.1.gauge state.2 c) (scan, held)

end Scan

/-- The tokens of a file that is read through the buffer. -/
def fileTokens? (text : Text) : Option (List Token) :=
  match (Window.start confBuffer (bytes text)).read Scan.readByte (bytes text).length
    Scan.start with
  | (tokens, some scan) => if scan.atEnd then some tokens else none
  | (_, none) => none

/-- Read a whole configuration file through the buffer. -/
def readFile (text : Text) : Option (List Directive) :=
  (fileTokens? text).bind (assemble [] [])

/-- The tokenizer gets to the end of the file. -/
def Fits (text : Text) : Prop := (Scan.start.gaugeText 0 text).isSome = true

instance (text : Text) : Decidable (Fits text) := inferInstanceAs (Decidable (_ = true))

theorem Scan.gauge_eq_some {scan next : Scan} {held kept : Nat} {c : Char} :
    scan.gauge held c = some (next, kept) ↔ ∃ emitted, scan.readChar c = some (next, emitted) ∧
      held < confBuffer ∧ kept = (scan.mark c emitted).count held + (c.utf8Size - 1) ∧
      kept ≤ confBuffer := by
  unfold gauge
  rw [Option.bind_eq_some_iff]
  constructor
  · rintro ⟨⟨after, emitted⟩, hread, hroom⟩
    dsimp only at hroom
    split at hroom
    next h =>
      cases hroom
      exact ⟨emitted, hread, h.1, rfl, h.2⟩
    · cases hroom
  · rintro ⟨emitted, hread, hfree, rfl, hroom⟩
    exact ⟨(next, emitted), hread, if_pos ⟨hfree, hroom⟩⟩

theorem Scan.gaugeText_cons (scan : Scan) (held : Nat) (c : Char) (rest : Text) :
    scan.gaugeText held (c :: rest) =
      (scan.gauge held c).bind fun state => state.1.gaugeText state.2 rest := rfl

/-! ## Words in the buffer -/

namespace Scan

/-- Between `start` and the current position the buffer has the characters that `scan` keeps for
the word which it is in. -/
structure InBuffer (buffered : Scan) (held : List Byte) (scan : Scan) : Prop where
  same : { buffered with raw := scan.raw } = scan
  raw : scan.lastSpace = false → scan.needSpace = false → scan.raw = charsOf held
  comment : scan.sharpComment = true → scan.lastSpace = true

section InBuffer

variable {scan buffered next : Scan} {held : List Byte}

theorem InBuffer.start (held : List Byte) : InBuffer start held start :=
  ⟨rfl, fun hlast _ => absurd hlast (by decide), fun _ => rfl⟩

theorem InBuffer.between (hsame : { buffered with raw := scan.raw } = scan)
    (hlast : scan.lastSpace = true) : InBuffer buffered held scan :=
  ⟨hsame, fun hword => by simp [hlast] at hword, fun _ => hlast⟩

theorem InBuffer.ended (hsame : { buffered with raw := scan.raw } = scan)
    (hneed : scan.needSpace = true) (hcomment : scan.sharpComment = false) :
    InBuffer buffered held scan :=
  ⟨hsame, fun _ hword => by simp [hneed] at hword, fun hsharp => by simp [hcomment] at hsharp⟩

theorem InBuffer.word (hsame : { buffered with raw := scan.raw } = scan)
    (hraw : scan.raw = charsOf held) (hcomment : scan.sharpComment = false) :
    InBuffer buffered held scan :=
  ⟨hsame, fun _ _ => hraw, fun hsharp => by simp [hcomment] at hsharp⟩

/-- The two results have the same tokens, and the buffer has the word of the second one. -/
def SameStep (scan : Scan) (held : List Byte) (c : Char) (result other : Scan × List Token) :
    Prop :=
  result.2 = other.2 ∧ InBuffer result.1 ((scan.mark c other.2).held held (some c)) other.1

/-- Both sides take the same branch. -/
theorem rel_ite {α β : Type} {R : α → β → Prop} {p : Prop} [Decidable p] {a b : Option α}
    {a' b' : Option β} (hthen : p → Option.Rel R a a') (helse : ¬p → Option.Rel R b b') :
    Option.Rel R (if p then a else b) (if p then a' else b') := by
  split
  next h => exact hthen h
  next h => exact helse h

theorem first_inBuffer (hlast : scan.lastSpace = true) (hcomment : scan.sharpComment = false)
    (hquoted : scan.quoted = false) (raw : Text) (c : Char) :
    Option.Rel (SameStep scan held c) (first { scan with raw := raw } c) (scan.first c) := by
  have hended (token : Token) : Option.Rel (SameStep scan held c)
      (if scan.args = [] then none else done token)
      (if scan.args = [] then none else done token) :=
    rel_ite (fun _ => .none) fun _ => .some ⟨rfl, .start _⟩
  unfold first
  refine rel_ite (fun _ => .some ⟨rfl, .between rfl hlast⟩) fun hspace => ?_
  refine rel_ite (fun _ => hended _) fun _ => ?_
  refine rel_ite (fun _ => hended _) fun _ => ?_
  refine rel_ite (fun _ => rel_ite (fun _ => .none) fun _ => .some ⟨rfl, .start _⟩) fun _ => ?_
  refine rel_ite (fun _ => .some ⟨rfl, .between rfl hlast⟩) fun _ => ?_
  -- a word begins, with this character or behind the quote
  have hmark : scan.mark c [] = if c = '"' ∨ c = '\'' then .after else .before := by
    simp [mark, hlast, hcomment, hquoted, hspace]
  have hbegins (next : Scan) (hsharp : next.sharpComment = false)
      (hraw : next.raw = if c = '"' ∨ c = '\'' then [] else [c]) :
      SameStep scan held c (next, []) (next, []) := by
    refine ⟨rfl, .word rfl ?_ hsharp⟩
    rw [hraw, hmark]
    split_ifs
    · rfl
    · rfl
  refine rel_ite (fun hescape => .some (hbegins _ hcomment ?_)) fun _ => ?_
  · rw [hescape]
    rfl
  refine rel_ite (fun hdouble => .some (hbegins _ hcomment ?_)) fun hdouble => ?_
  · rw [if_pos (Or.inl hdouble)]
  refine rel_ite (fun hsingle => .some (hbegins _ hcomment ?_)) fun hsingle => ?_
  · rw [if_pos (Or.inr hsingle)]
  exact .some (hbegins _ hcomment (if_neg (not_or.mpr ⟨hdouble, hsingle⟩)).symm)

theorem found_inBuffer (hbetween : (scan.lastSpace || scan.needSpace) = true)
    (hcomment : scan.sharpComment = false) (before : Scan) (c : Char) :
    Option.Rel (SameStep before held c) (scan.found c) (scan.found c) := by
  unfold found
  split_ifs
  · exact .some ⟨rfl, .start _⟩
  · exact .some ⟨rfl, .start _⟩
  · refine .some ⟨rfl, rfl, fun hlast hneed => ?_, fun hsharp => ?_⟩
    · simp_all
    · simp_all

theorem inside_inBuffer (hlast : scan.lastSpace = false) (hneed : scan.needSpace = false)
    (hcomment : scan.sharpComment = false)
    (hraw : scan.raw = charsOf held) (c : Char) :
    Option.Rel (SameStep scan held c) (scan.inside c) (scan.inside c) := by
  have hmark : scan.mark c [] = .stay := by
    simp only [mark, hlast, hneed]
    simp
  have hkeep (next : Scan) (hnext : next.raw = scan.raw ++ [c])
      (hsharp : next.sharpComment = false) : SameStep scan held c (next, []) (next, []) := by
    refine ⟨rfl, .word rfl ?_ hsharp⟩
    rw [hmark, Mark.held, charsOf, List.filterMap_append, hnext, hraw]
    rfl
  have hkept (inVariable quoted : Bool) : Option.Rel (SameStep scan held c)
      (more { scan.keep c with inVariable := inVariable, quoted := quoted })
      (more { scan.keep c with inVariable := inVariable, quoted := quoted }) :=
    .some (hkeep _ rfl hcomment)
  have hfound (next : Scan) (hnext : (next.lastSpace || next.needSpace) = true)
      (hsharp : next.sharpComment = false) :
      Option.Rel (SameStep scan held c) (next.found c) (next.found c) :=
    found_inBuffer hnext hsharp scan c
  unfold inside
  refine rel_ite (fun _ => hkept _ _) fun _ => ?_
  refine rel_ite (fun _ => hkept _ _) fun _ => ?_
  refine rel_ite (fun _ => hkept _ _) fun _ => ?_
  refine rel_ite (fun _ => ?_) fun _ => ?_
  · exact rel_ite (fun _ => hfound _ (by simp) hcomment) fun _ => hkept _ _
  refine rel_ite (fun _ => ?_) fun _ => ?_
  · exact rel_ite (fun _ => hfound _ (by simp) hcomment) fun _ => hkept _ _
  exact rel_ite (fun _ => hfound _ (by simp) hcomment) fun _ => hkept _ _

theorem plainChar_inBuffer (hneed : scan.needSpace = false) (hcomment : scan.sharpComment = false)
    (hquoted : scan.quoted = false) (hraw : scan.lastSpace = false → scan.raw = charsOf held)
    (c : Char) :
    Option.Rel (SameStep scan held c) (plainChar { scan with raw := charsOf held } c)
      (scan.plainChar c) := by
  unfold plainChar
  by_cases hlast : scan.lastSpace = true
  · rw [if_pos hlast, if_pos hlast]
    exact first_inBuffer hlast hcomment hquoted _ c
  · have hword : scan.lastSpace = false := by simpa using hlast
    have hsame : { scan with raw := charsOf held } = scan := by rw [← hraw hword]
    rw [hsame, if_neg hlast]
    exact inside_inBuffer hword hneed hcomment (hraw hword) c

theorem readChar_eq (h : scan.sharpComment = false) (c : Char) :
    scan.readChar c =
      if scan.quoted then more { scan.keep c with quoted := false }
      else if scan.needSpace then
        if isSpace c then more { scan with lastSpace := true, needSpace := false }
        else if c = ';' then done (.statement scan.args)
        else if c = '{' then done (.blockStart scan.args)
        else if c = ')' then plainChar { scan with lastSpace := true, needSpace := false } c
        else none
      else scan.plainChar c := by
  have hline : (if c = '\n' then { scan with sharpComment := false } else scan) = scan := by
    rw [← h, ite_self]
  unfold readChar
  simp only [hline, h]
  rfl

theorem readChar_outside (hcomment : scan.sharpComment = false)
    (hraw : scan.lastSpace = false → scan.needSpace = false → scan.raw = charsOf held) (c : Char) :
    Option.Rel (SameStep scan held c) (readChar { scan with raw := charsOf held } c)
      (scan.readChar c) := by
  have hother : { scan with raw := charsOf held }.sharpComment = false := hcomment
  rw [readChar_eq hcomment, readChar_eq hother]
  refine rel_ite (fun hquoted => ?_) fun hquoted => ?_
  · have hmark : scan.mark c [] = .stay := by simp [mark, show scan.quoted = true from hquoted]
    refine .some ⟨rfl, rfl, fun hlast hneed => ?_, fun hsharp => ?_⟩
    · rw [hmark, Mark.held, charsOf, List.filterMap_append]
      exact congrArg (· ++ [c]) (hraw hlast hneed)
    · exact absurd (hcomment.symm.trans hsharp) (by decide)
  have hunquoted : scan.quoted = false := by simpa using hquoted
  refine rel_ite (fun hneed => ?_) fun hneed => ?_
  · change scan.needSpace = true at hneed
    refine rel_ite (fun _ => .some ⟨rfl, .between rfl rfl⟩) fun _ => ?_
    refine rel_ite (fun _ => .some ⟨rfl, .start _⟩) fun _ => ?_
    refine rel_ite (fun _ => .some ⟨rfl, .start _⟩) fun _ => ?_
    refine rel_ite (fun hparen => ?_) fun _ => .none
    subst hparen
    have hmark : scan.mark ')' [] = .before := by
      simp [mark, hcomment, hunquoted, hneed, isSpace]
    refine .some ⟨rfl, .word rfl ?_ hcomment⟩
    rw [hmark]
    rfl
  · have hword : scan.needSpace = false := by simpa using hneed
    exact plainChar_inBuffer hword hcomment hunquoted (fun hlast => hraw hlast hword) c

/-- With the characters of the buffer the tokenizer takes the same step. -/
theorem readChar_inBuffer (h : InBuffer buffered held scan) (c : Char) :
    Option.Rel (SameStep scan held c) (readChar { buffered with raw := charsOf held } c)
      (scan.readChar c) := by
  have hsame : { buffered with raw := charsOf held } = { scan with raw := charsOf held } := by
    rw [← h.same]
  rw [hsame]
  by_cases hsharp : scan.sharpComment = true
  · by_cases hend : c = '\n'
    -- the comment ends with the line
    · subst hend
      have hmark (emitted : List Token) :
          mark { scan with sharpComment := false } '\n' emitted = scan.mark '\n' emitted := by
        simp [mark, isSpace]
      have hstep : Option.Rel (SameStep { scan with sharpComment := false } held '\n')
          (readChar { scan with raw := charsOf held } '\n') (scan.readChar '\n') :=
        @readChar_outside { scan with sharpComment := false } held rfl h.raw '\n'
      unfold SameStep at hstep ⊢
      simpa only [hmark] using hstep
    · have hread (raw : Text) : readChar { scan with raw := raw } c =
          more { scan with raw := raw } := by
        unfold readChar
        rw [if_neg hend, if_pos hsharp]
      rw [hread, hread]
      exact .some ⟨rfl, .between rfl (h.comment hsharp)⟩
  · exact readChar_outside (by simpa using hsharp) h.raw c

end InBuffer

end Scan

/-! ## Reading through the buffer -/

abbrev bufferStep := heldStep confBuffer Scan.readByte

/-- The bytes of a character after its first one. -/
theorem transduce_rest (count : Nat) (scan : Scan) {held : List Byte}
    (hheld : held.length ≤ confBuffer) :
    transduce bufferStep (scan, held) (List.replicate count none) =
      if held.length + count ≤ confBuffer then
        ([], some (scan, held ++ List.replicate count none))
      else ([], none) := by
  induction count generalizing held with
  | zero => simp [hheld]
  | succ count ih =>
      rw [List.replicate_succ]
      by_cases hfull : held.length = confBuffer
      · have hstep : bufferStep (scan, held) none = none := if_pos hfull
        simp only [transduce, hstep]
        rw [if_neg (by omega)]
      · have hstep : bufferStep (scan, held) none = some ((scan, held ++ [none]), []) :=
          if_neg hfull
        rw [transduce_cons_of_step _ _ hstep, ih (by simp; omega)]
        rw [List.length_append, List.length_singleton, Nat.add_assoc, Nat.add_comm 1]
        split_ifs <;> simp

theorem charsOf_append_rest (held : List Byte) (count : Nat) :
    charsOf (held ++ List.replicate count none) = charsOf held := by
  simp [charsOf, List.filterMap_replicate_of_none]

theorem Scan.InBuffer.append_rest {buffered scan : Scan} {held : List Byte}
    (h : InBuffer buffered held scan) (count : Nat) :
    InBuffer buffered (held ++ List.replicate count none) scan :=
  { h with raw := fun hlast hneed => by rw [charsOf_append_rest, h.raw hlast hneed] }

section Steps

variable {buffered scan : Scan} {held : List Byte} {c : Char}

theorem bufferStep_none (h : Scan.InBuffer buffered held scan)
    (hread : scan.readChar c = none) : bufferStep (buffered, held) (some c) = none := by
  have hsame := Scan.readChar_inBuffer h c
  rw [hread] at hsame
  generalize hbuffered : Scan.readChar { buffered with raw := charsOf held } c = outcome at hsame
  cases hsame
  unfold bufferStep heldStep
  split
  · rfl
  · simp [Scan.readByte, hbuffered]

theorem bufferStep_some (h : Scan.InBuffer buffered held scan) {next : Scan}
    {emitted : List Token} (hread : scan.readChar c = some (next, emitted))
    (hfree : held.length ≠ confBuffer) :
    ∃ last kept, bufferStep (buffered, held) (some c) = some ((last, kept), emitted) ∧
      Scan.InBuffer last kept next ∧ kept.length = (scan.mark c emitted).count held.length := by
  have hsame := Scan.readChar_inBuffer h c
  rw [hread] at hsame
  generalize hbuffered : Scan.readChar { buffered with raw := charsOf held } c = outcome at hsame
  obtain ⟨hemitted, hin⟩ | _ := hsame
  subst hemitted
  have hmark : buffered.mark c = scan.mark c := by
    rw [← h.same]
    rfl
  refine ⟨_, _, ?_, hin, Mark.length_held _ _ _⟩
  unfold bufferStep heldStep
  rw [if_neg hfree, Scan.readByte, hbuffered, hmark]
  rfl

theorem count_le (mark : Mark) {count : Nat} (h : count < confBuffer) :
    mark.count count ≤ confBuffer := by
  cases mark with
  | stay => exact h
  | before => exact Nat.le_trans (Nat.le_add_left 1 count) h
  | after => exact Nat.zero_le _

/-- The buffer takes the bytes of a character if there is room for them. -/
theorem transduce_char (h : Scan.InBuffer buffered held scan) {next : Scan} {count : Nat}
    (hgauge : scan.gauge held.length c = some (next, count)) :
    ∃ emitted last kept, scan.readChar c = some (next, emitted) ∧
      transduce bufferStep (buffered, held) (charBytes c) = (emitted, some (last, kept)) ∧
      Scan.InBuffer last kept next ∧ kept.length = count ∧ count ≤ confBuffer := by
  obtain ⟨emitted, hread, hfree, hcount, hroom⟩ := Scan.gauge_eq_some.mp hgauge
  obtain ⟨last, kept, hstep, hin, hkept⟩ := bufferStep_some h hread (Nat.ne_of_lt hfree)
  have hrest := transduce_rest (c.utf8Size - 1) last (hkept ▸ count_le _ hfree)
  rw [hkept, ← hcount, if_pos hroom] at hrest
  refine ⟨emitted, last, _, hread, ?_, hin.append_rest (c.utf8Size - 1), ?_, hroom⟩
  · rw [charBytes, transduce_cons_of_step _ _ hstep, hrest, List.append_nil]
  · rw [List.length_append, List.length_replicate, hkept, hcount]

/-- Otherwise the file is refused. -/
theorem transduce_char_none (h : Scan.InBuffer buffered held scan)
    (hheld : held.length ≤ confBuffer) (hgauge : scan.gauge held.length c = none) :
    (transduce bufferStep (buffered, held) (charBytes c)).2 = none := by
  cases hread : scan.readChar c with
  | none =>
      have hstep := bufferStep_none h hread
      simp only [charBytes, transduce, hstep]
  | some result =>
      by_cases hfull : held.length = confBuffer
      · have hstep : bufferStep (buffered, held) (some c) = none := if_pos hfull
        simp only [charBytes, transduce, hstep]
      · obtain ⟨last, kept, hstep, -, hkept⟩ := bufferStep_some h hread hfull
        have hfree := Nat.lt_of_le_of_ne hheld hfull
        have hrest := transduce_rest (c.utf8Size - 1) last (hkept ▸ count_le _ hfree)
        have hroom : ¬kept.length + (c.utf8Size - 1) ≤ confBuffer := by
          rw [hkept]
          intro hroom
          rw [Scan.gauge, hread] at hgauge
          simp [hfree, hroom] at hgauge
        rw [charBytes, transduce_cons_of_step _ _ hstep, hrest, if_neg hroom]

/-- The buffer takes a text if there is room for all of its words. -/
theorem transduce_bytes {text : Text} (h : Scan.InBuffer buffered held scan) {final : Scan}
    {count : Nat} (hgauge : scan.gaugeText held.length text = some (final, count)) :
    ∃ tokens last kept, Reads scan text tokens final ∧
      transduce bufferStep (buffered, held) (bytes text) = (tokens, some (last, kept)) ∧
      Scan.InBuffer last kept final := by
  induction text generalizing buffered scan held with
  | nil =>
      cases hgauge
      exact ⟨[], buffered, held, Reads.nil _, rfl, h⟩
  | cons c rest ih =>
      rw [Scan.gaugeText_cons, Option.bind_eq_some_iff] at hgauge
      obtain ⟨⟨next, middle⟩, hchar, hrest⟩ := hgauge
      obtain ⟨emitted, last, kept, hread, hbytes, hin, hkept, -⟩ := transduce_char h hchar
      rw [← hkept] at hrest
      obtain ⟨tokens, other, buffer, hreads, htail, hfinal⟩ := ih hin hrest
      rw [bytes] at htail
      refine ⟨emitted ++ tokens, other, buffer, Reads.cons hread hreads, ?_, hfinal⟩
      rw [bytes, List.flatMap_cons, transduce_append _ _ hbytes, htail]

theorem transduce_bytes_none {text : Text} (h : Scan.InBuffer buffered held scan)
    (hheld : held.length ≤ confBuffer) (hgauge : scan.gaugeText held.length text = none) :
    (transduce bufferStep (buffered, held) (bytes text)).2 = none := by
  induction text generalizing buffered scan held with
  | nil => cases hgauge
  | cons c rest ih =>
      rw [bytes, List.flatMap_cons]
      cases hchar : scan.gauge held.length c with
      | none =>
          have hrefused : transduce bufferStep (buffered, held) (charBytes c) = (_, none) :=
            Prod.ext rfl (transduce_char_none h hheld hchar)
          rw [transduce_append_of_refused _ _ hrefused]
      | some state =>
          obtain ⟨emitted, last, kept, hread, hbytes, hin, hkept, hroom⟩ := transduce_char h hchar
          rw [Scan.gaugeText_cons, hchar, Option.bind_some, ← hkept] at hgauge
          rw [transduce_append _ _ hbytes]
          exact ih hin (hkept ▸ hroom) hgauge

end Steps

/-! ## Reading a file -/

theorem fileTokens_eq (text : Text) :
    fileTokens? text = if Fits text then tokens? text else none := by
  have hread : (Window.start confBuffer (bytes text)).read Scan.readByte (bytes text).length
      Scan.start = ((transduce bufferStep (Scan.start, []) (bytes text)).1,
        (transduce bufferStep (Scan.start, []) (bytes text)).2.map Prod.fst) :=
    Window.read_eq_transduce (Nat.le_refl _)
  unfold fileTokens?
  rw [hread]
  have hstart := Scan.InBuffer.start []
  cases hgauge : Scan.start.gaugeText 0 text with
  | none =>
      rw [if_neg (by simp [Fits, hgauge]), transduce_bytes_none hstart (Nat.zero_le _) hgauge]
      rfl
  | some result =>
      obtain ⟨tokens, last, kept, hreads, hbytes, hin⟩ := transduce_bytes hstart hgauge
      have hend : last.atEnd = result.1.atEnd := by
        rw [← hin.same]
        rfl
      rw [if_pos (by simp [Fits, hgauge]), hbytes, tokens?, hreads]
      simp only [Option.map_some, hend]

/-- A file is read as if it lay in memory as a whole, if it fits. -/
theorem readFile_eq (text : Text) : readFile text = if Fits text then readConf text else none := by
  rw [readFile, fileTokens_eq, readConf]
  split <;> rfl

end NginxInterface.ConfFile
