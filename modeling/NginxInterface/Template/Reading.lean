import NginxInterface.ConfFile.Words
import NginxInterface.Template.Render

/-! # Reading what the template prints

`Prints` says that a part of the template renders, and what the tokenizer makes of
its text from a given state. The parts of a template are chained one after the
other; a literal segment is read by evaluation, apart from the character or two that
end a word which came from a value.
-/

namespace NginxInterface

open Foundation Js Ejs ConfFile

/-- The part renders, and reading its text from `scan` yields `tokens` and ends in
`final`. -/
def Prints (part : Except Fault Text) (scan : Scan) (tokens : List Token) (final : Scan) : Prop :=
  ∃ text, part = .ok text ∧ Reads scan text tokens final

instance (part : Except Fault Text) (scan : Scan) (tokens : List Token) (final : Scan) :
    Decidable (Prints part scan tokens final) :=
  match part with
  | .ok text => decidable_of_iff (Reads scan text tokens final)
      ⟨fun h => ⟨text, rfl, h⟩, fun ⟨_, htext, h⟩ => Except.ok.inj htext ▸ h⟩
  | .error _ => isFalse fun ⟨_, htext, _⟩ => by cases htext

theorem Prints.ok {text : Text} {scan final : Scan} {tokens : List Token}
    (h : Reads scan text tokens final) : Prints (.ok text) scan tokens final :=
  ⟨text, rfl, h⟩

theorem Prints.nil (scan : Scan) : Prints (cat []) scan [] scan := .ok (Reads.nil scan)

theorem Prints.cons {part : Except Fault Text} {rest : List (Except Fault Text)}
    {scan middle final : Scan} {first second : List Token}
    (hpart : Prints part scan first middle) (hrest : Prints (cat rest) middle second final) :
    Prints (cat (part :: rest)) scan (first ++ second) final := by
  obtain ⟨head, rfl, hhead⟩ := hpart
  obtain ⟨tail, htail, hreads⟩ := hrest
  refine ⟨head ++ tail, ?_, hhead.append hreads⟩
  rw [cat_ok_cons, htail]
  rfl

/-- A part that completes no token. -/
theorem Prints.silent {part : Except Fault Text} {rest : List (Except Fault Text)}
    {scan middle final : Scan} {tokens : List Token} (hpart : Prints part scan [] middle)
    (hrest : Prints (cat rest) middle tokens final) :
    Prints (cat (part :: rest)) scan tokens final := hpart.cons hrest

/-- A part that completes one token. -/
theorem Prints.one {part : Except Fault Text} {rest : List (Except Fault Text)}
    {scan middle final : Scan} {token : Token} {tokens : List Token}
    (hpart : Prints part scan [token] middle) (hrest : Prints (cat rest) middle tokens final) :
    Prints (cat (part :: rest)) scan (token :: tokens) final := hpart.cons hrest

/-- A part that completes two tokens. -/
theorem Prints.two {part : Except Fault Text} {rest : List (Except Fault Text)}
    {scan middle final : Scan} {token other : Token} {tokens : List Token}
    (hpart : Prints part scan [token, other] middle)
    (hrest : Prints (cat rest) middle tokens final) :
    Prints (cat (part :: rest)) scan (token :: other :: tokens) final := hpart.cons hrest

theorem Prints.cast {part : Except Fault Text} {scan final : Scan} {tokens other : List Token}
    (h : Prints part scan tokens final) (htokens : tokens = other) :
    Prints part scan other final := htokens ▸ h

/-- A loop whose body reads as a unit reads as the sequence of these units. -/
theorem Prints.map {Item : Type} {items : List Item} {body : Item → Except Fault Text}
    {tokens : Item → List Token} {scan : Scan}
    (h : ∀ item ∈ items, Prints (body item) scan (tokens item) scan) :
    Prints (cat (items.map body)) scan (items.flatMap tokens) scan := by
  induction items with
  | nil => exact Prints.nil scan
  | cons item rest ih =>
      rw [List.map_cons, List.flatMap_cons]
      exact (h item List.mem_cons_self).cons
        (ih fun other hother => h other (List.mem_cons_of_mem _ hother))

/-! ## Literal segments -/

variable {before after : Tag} {chars : Text}

/-- A segment read from a known state. -/
theorem prints_segment {scan : Scan} (tokens : List Token) (final : Scan)
    (h : Reads scan (slurp before chars after) tokens final) :
    Prints (.ok (segment before (String.ofList chars) after)) scan tokens final := by
  rw [segment_ofList]
  exact .ok h

/-- A segment whose first character ends the word and the statement. -/
theorem prints_semicolon {args : List Word} {raw : Text} {inVariable : Bool}
    (hraw : unescape raw = raw) (tokens : List Token) (final : Scan)
    (hmark : (slurp before chars after).take 1 = [';'])
    (hrest : Reads .start ((slurp before chars after).drop 1) tokens final) :
    Prints (.ok (segment before (String.ofList chars) after)) (.inWord args raw inVariable)
      (.statement (args ++ [raw]) :: tokens) final := by
  rw [segment_ofList, ← List.take_append_drop 1 (slurp before chars after), hmark]
  exact .ok (Reads.cons (readChar_statement hraw args inVariable) hrest)

/-- A segment that begins with a blank, so that the statement goes on. -/
theorem prints_blank {args : List Word} {raw : Text} {inVariable : Bool}
    (hraw : unescape raw = raw) (tokens : List Token) (final : Scan)
    (hmark : (slurp before chars after).take 1 = [' '])
    (hrest : Reads (.words (args ++ [raw])) ((slurp before chars after).drop 1) tokens final) :
    Prints (.ok (segment before (String.ofList chars) after)) (.inWord args raw inVariable)
      tokens final := by
  rw [segment_ofList, ← List.take_append_drop 1 (slurp before chars after), hmark]
  exact .ok (Reads.cons (readChar_space hraw args inVariable) hrest)

/-- A segment that begins with a blank and an opening brace. -/
theorem prints_openBlock {args : List Word} {raw : Text} {inVariable : Bool}
    (hraw : unescape raw = raw) (tokens : List Token) (final : Scan)
    (hmark : (slurp before chars after).take 2 = [' ', '{'])
    (hrest : Reads .start ((slurp before chars after).drop 2) tokens final) :
    Prints (.ok (segment before (String.ofList chars) after)) (.inWord args raw inVariable)
      (.blockStart (args ++ [raw]) :: tokens) final := by
  rw [segment_ofList, ← List.take_append_drop 2 (slurp before chars after), hmark]
  exact .ok (Reads.cons (readChar_space hraw args inVariable)
    (Reads.cons (readChar_block (by simp)) hrest))

/-! ## Values -/

theorem prints_word {text : Text} (h : starts text = true) (args : List Word) :
    Prints (.ok text) (.words args) [] (.inWord args text (wordVariable text)) :=
  .ok (reads_starts h args)

theorem prints_inside {inVariable : Bool} {text : Text} (h : stays inVariable text = true)
    (args : List Word) (raw : Text) :
    Prints (.ok text) (.inWord args raw inVariable) []
      (.inWord args (raw ++ text) (variableAfter inVariable text)) :=
  .ok (reads_stays h args raw)

/-- Letters, digits, `_`, `-` and `.`. -/
def nameChar (c : Char) : Bool := c.isAlphanum || c == '_' || c == '-' || c == '.'

/-- Characters that mean nothing to the tokenizer or to the escaping. -/
def ordinary (c : Char) : Bool := numeralChar c || c == '_'

theorem ordinary_of_nameChar {c : Char} (h : nameChar c = true) : ordinary c = true := by
  simp only [nameChar, ordinary, numeralChar, Bool.or_eq_true] at h ⊢
  tauto

theorem ordinary_ne {c special : Char} (h : ordinary c = true)
    (hspecial : ordinary special = false) : c ≠ special := by
  rintro rfl
  rw [h] at hspecial
  cases hspecial

/-- Characters that mean something to the tokenizer or to the escaping. -/
def special (c : Char) : Bool :=
  isSpace c || c == ';' || c == '{' || c == '}' || c == '#' || c == '\\' || c == '$' ||
    Value.htmlSpecial c

theorem special_of_ordinary {c : Char} (h : ordinary c = true) : special c = false := by
  have hne (other : Char) (hother : ordinary other = false) : (c == other) = false :=
    beq_eq_false_iff_ne.mpr (ordinary_ne h hother)
  simp only [special, isSpace, Value.htmlSpecial, Bool.or_eq_false_iff]
  and_intros <;> exact hne _ (by decide)

theorem after_of_not_special {text : Text} (h : ∀ c ∈ text, special c = false) :
    Place.plain.after text = some .plain := by
  induction text with
  | nil => rfl
  | cons c rest ih =>
      have hc := h c List.mem_cons_self
      simp only [special, Bool.or_eq_false_iff, beq_eq_false_iff_ne] at hc
      have hnext : Place.plain.next c = some .plain := by simp [Place.next, hc]
      rw [Place.after_cons, hnext]
      exact ih fun other hother => h other (List.mem_cons_of_mem _ hother)

theorem starts_of_not_special {text : Text} (hne : text ≠ [])
    (h : ∀ c ∈ text, special c = false) : starts text = true := by
  cases text with
  | nil => exact absurd rfl hne
  | cons c rest =>
      have hc := h c List.mem_cons_self
      have hrest := after_of_not_special fun other hother => h other (List.mem_cons_of_mem _ hother)
      simp only [special, Value.htmlSpecial, Bool.or_eq_false_iff, beq_eq_false_iff_ne] at hc
      simp [starts, Place.first, Place.complete, hrest, hc]

theorem escapeText_of_plain {text : Text} (h : ∀ c ∈ text, special c = false) :
    Value.escapeText text = text := by
  refine Value.escapeText_of_not_special fun c hc => ?_
  have hspecial := h c hc
  simp only [special, Bool.or_eq_false_iff] at hspecial
  exact hspecial.2

theorem number_ordinary {N : Type} [Number N] (n : N) :
    ∀ c ∈ Number.toText n, ordinary c = true := by
  intro c hc
  simp [ordinary, Number.toText_numeral n c hc]

/-- The escaping leaves the text alone, and the tokenizer reads it as one word. -/
def PlainWord (text : Text) : Prop := starts text = true ∧ Value.escapeText text = text

instance (text : Text) : Decidable (PlainWord text) := inferInstanceAs (Decidable (_ ∧ _))

/-- The escaping leaves the text alone, and it continues a word without ending it. -/
def PlainPart (text : Text) : Prop := stays false text = true ∧ Value.escapeText text = text

instance (text : Text) : Decidable (PlainPart text) := inferInstanceAs (Decidable (_ ∧ _))

/-- A text without special characters is a word. -/
theorem plainWord_of_not_special {text : Text} (hne : text ≠ [])
    (h : ∀ c ∈ text, special c = false) : PlainWord text :=
  ⟨starts_of_not_special hne h, escapeText_of_plain h⟩

theorem plainWord_of_ordinary {text : Text} (hne : text ≠ [])
    (h : ∀ c ∈ text, ordinary c = true) : PlainWord text :=
  plainWord_of_not_special hne fun c hc => special_of_ordinary (h c hc)

theorem PlainWord.escapeText_semicolon {word : Text} (h : PlainWord word) :
    Value.escapeText (word ++ [';']) = word ++ [';'] := by
  rw [Value.escapeText, List.flatMap_append]
  exact congrArg (· ++ [';']) h.2

/-- A word and its semicolon are a statement. -/
theorem PlainWord.reads_statement {word : Text} (h : PlainWord word) :
    Reads .start (Value.escapeText (word ++ [';'])) [.statement [word]] .start := by
  rw [h.escapeText_semicolon]
  exact (reads_starts h.1 []).append
    (Reads.cons (readChar_statement (unescape_of_starts h.1) [] _) (Reads.nil _))

end NginxInterface
