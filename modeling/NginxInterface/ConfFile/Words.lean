import NginxInterface.ConfFile.ReadToken

/-! # Texts that stay inside a word

Which texts the tokenizer takes as a word, or as the continuation of a word it has
begun, and what ends such a word. A `$` inside a word makes the tokenizer pass over
a `{` that follows it; after the first character of a word it does not. A backslash
keeps the character after it in the word, and both stay in the word's value unless
they are one of the escapes that the copy loop replaces.
-/

namespace NginxInterface.ConfFile

open Foundation Js

/-- Where in an unquoted word the tokenizer is. -/
inductive Place where
  | plain
  | dollar
  | escaped
  deriving DecidableEq

namespace Place

/-- The characters that a backslash changes. -/
def replaced (c : Char) : Bool :=
  c == '"' || c == '\'' || c == '\\' || c == 't' || c == 'r' || c == 'n'

/-- The place after one more character, if the word goes on and keeps it. -/
def next (place : Place) (c : Char) : Option Place :=
  if place = .escaped then if replaced c then none else some .plain
  else if c = '{' ∧ place = .dollar then some .dollar
  else if c = '\\' then some .escaped
  else if isSpace c ∨ c = ';' ∨ c = '{' then none
  else if c = '$' then some .dollar
  else some .plain

def after (place : Place) (text : Text) : Option Place := text.foldlM next place

/-- The two places where a word may end. -/
def ofVariable (inVariable : Bool) : Place := if inVariable then .dollar else .plain

theorem after_cons (place : Place) (c : Char) (rest : Text) :
    place.after (c :: rest) = (place.next c).bind fun other => other.after rest := rfl

theorem after_append (place : Place) (first second : Text) :
    place.after (first ++ second) = (place.after first).bind fun other => other.after second :=
  List.foldlM_append

end Place

namespace Scan

/-- Between two words of a directive. -/
def words (args : List Word) : Scan := { args := args }

/-- Inside an unquoted word. -/
def atPlace (args : List Word) (raw : Text) (place : Place) : Scan :=
  { args := args, raw := raw, lastSpace := false, inVariable := place = .dollar,
    quoted := place = .escaped }

/-- Inside an unquoted word and not after a backslash. -/
def inWord (args : List Word) (raw : Text) (inVariable : Bool) : Scan :=
  { args := args, raw := raw, lastSpace := false, inVariable := inVariable }

/-- Inside a comment between two directives. -/
def comment : Scan := { sharpComment := true }

theorem atPlace_ofVariable (args : List Word) (raw : Text) (inVariable : Bool) :
    atPlace args raw (.ofVariable inVariable) = inWord args raw inVariable := by
  cases inVariable <;> rfl

end Scan

theorem readChar_next {place other : Place} {c : Char} (h : place.next c = some other)
    (args : List Word) (raw : Text) :
    (Scan.atPlace args raw place).readChar c = some (Scan.atPlace args (raw ++ [c]) other, []) := by
  have hline : (if c = '\n' then { Scan.atPlace args raw place with sharpComment := false }
      else Scan.atPlace args raw place) = Scan.atPlace args raw place := by
    split <;> rfl
  simp only [Scan.readChar, hline]
  unfold Place.next at h
  split at h
  -- the character after a backslash is kept whatever it is
  next hescaped =>
    subst hescaped
    split at h
    · cases h
    · cases h
      rfl
  next hescaped =>
    have hinside : (Scan.atPlace args raw place).inside c =
        some (Scan.atPlace args (raw ++ [c]) other, []) := by
      unfold Scan.inside
      split at h
      -- `${` opens a variable and does not end the word
      next hopen =>
        cases h
        obtain ⟨rfl, rfl⟩ := hopen
        rfl
      next hopen =>
        rw [if_neg (by simpa [Scan.atPlace] using hopen)]
        split_ifs at h <;> cases h <;> simp_all [Scan.atPlace, Scan.keep, Scan.more]
    simpa [Scan.atPlace, Scan.more, Scan.plainChar, hescaped] using hinside

/-- A text that stays inside a word extends it. -/
theorem reads_after {place other : Place} {text : Text} (h : place.after text = some other)
    (args : List Word) (raw : Text) :
    Reads (.atPlace args raw place) text [] (.atPlace args (raw ++ text) other) := by
  induction text generalizing place raw with
  | nil =>
      cases h
      rw [List.append_nil]
      exact Reads.nil _
  | cons c rest ih =>
      rw [Place.after_cons, Option.bind_eq_some_iff] at h
      obtain ⟨between, hnext, hrest⟩ := h
      have hreads := ih hrest (raw ++ [c])
      rw [List.append_assoc, List.singleton_append] at hreads
      exact Reads.cons (readChar_next hnext args raw) hreads

/-- The word may end at this place. -/
def Place.complete : Option Place → Bool
  | some .plain => true
  | some .dollar => true
  | _ => false

theorem Place.eq_of_complete {place : Option Place} (h : complete place = true) :
    place = some (ofVariable (place = some .dollar)) := by
  rcases place with _ | _ | _ | _
  · cases h
  · rfl
  · rfl
  · cases h

/-- The text does not end the word that is being read. -/
def stays (inVariable : Bool) (text : Text) : Bool :=
  Place.complete ((Place.ofVariable inVariable).after text)

/-- The variable flag after such a text. -/
def variableAfter (inVariable : Bool) (text : Text) : Bool :=
  (Place.ofVariable inVariable).after text = some .dollar

/-- The place after the first character of a word. A `$` is not noticed there. -/
def Place.first (c : Char) : Place := if c = '\\' then .escaped else .plain

/-- The text begins an unquoted word and does not end it. -/
def starts : Text → Bool
  | [] => false
  | c :: rest =>
      !(isSpace c || c = ';' || c = '{' || c = '}' || c = '#' || c = '"' || c = '\'') &&
        Place.complete ((Place.first c).after rest)

/-- The variable flag after such a text. -/
def wordVariable : Text → Bool
  | [] => false
  | c :: rest => (Place.first c).after rest = some .dollar

theorem reads_stays {inVariable : Bool} {text : Text} (h : stays inVariable text = true)
    (args : List Word) (raw : Text) :
    Reads (.inWord args raw inVariable) text []
      (.inWord args (raw ++ text) (variableAfter inVariable text)) := by
  rw [← Scan.atPlace_ofVariable, ← Scan.atPlace_ofVariable]
  exact reads_after (Place.eq_of_complete h) args raw

/-- The first character of a word, and the place where the rest of the word ends. -/
theorem readChar_starts {c : Char} {rest : Text} (h : starts (c :: rest) = true)
    (args : List Word) :
    (Scan.words args).readChar c = some (.atPlace args [c] (Place.first c), []) ∧
      (Place.first c).after rest = some (.ofVariable (wordVariable (c :: rest))) := by
  simp only [starts, Bool.and_eq_true, Bool.not_eq_true', Bool.or_eq_false_iff,
    decide_eq_false_iff_not] at h
  obtain ⟨⟨⟨⟨⟨⟨⟨hspace, hsemicolon⟩, hopen⟩, hclose⟩, hsharp⟩, hdouble⟩, hsingle⟩, hrest⟩ := h
  refine ⟨?_, Place.eq_of_complete hrest⟩
  have hline : c ≠ '\n' := by
    rintro rfl
    cases hspace
  by_cases hescape : c = '\\'
  · subst hescape
    rfl
  · simp [Scan.readChar, Scan.plainChar, Scan.first, Scan.words, Scan.atPlace, Scan.more,
      Place.first, hline, hspace, hsemicolon, hopen, hclose, hsharp, hescape, hdouble, hsingle]

/-- A text that begins a word is read as the beginning of the next one. -/
theorem reads_starts {text : Text} (h : starts text = true) (args : List Word) :
    Reads (.words args) text [] (.inWord args text (wordVariable text)) := by
  cases text with
  | nil => cases h
  | cons c rest =>
      obtain ⟨hread, hrest⟩ := readChar_starts h args
      rw [← Scan.atPlace_ofVariable]
      exact Reads.cons hread (reads_after hrest args [c])

theorem readChar_comment {c : Char} (h : c ≠ '\n') :
    Scan.comment.readChar c = some (.comment, []) := by
  simp [Scan.readChar, Scan.comment, Scan.more, h]

/-- A comment goes on to the end of the line. -/
theorem reads_comment {text : Text} (h : '\n' ∉ text) : Reads .comment text [] .comment := by
  induction text with
  | nil => exact Reads.nil _
  | cons c rest ih =>
      rw [List.mem_cons, not_or] at h
      exact Reads.cons (readChar_comment (Ne.symm h.1)) (ih h.2)

/-- What goes on without a `$` before it also does with one. -/
theorem Place.complete_dollar {text : Text} (h : complete (plain.after text) = true) :
    complete (dollar.after text) = true := by
  cases text with
  | nil => rfl
  | cons c rest =>
      rw [after_cons] at h ⊢
      have hopen : c ≠ '{' := by
        rintro rfl
        cases h
      have hnext : dollar.next c = plain.next c := by simp [next, hopen]
      rwa [hnext]

/-- A word may also stand behind the beginning of one. -/
theorem stays_of_starts {text : Text} (h : starts text = true) : stays false text = true := by
  cases text with
  | nil => rfl
  | cons c rest =>
      simp only [starts, Bool.and_eq_true, Bool.not_eq_true', Bool.or_eq_false_iff,
        decide_eq_false_iff_not] at h
      obtain ⟨⟨⟨⟨⟨⟨⟨hspace, hsemicolon⟩, hopen⟩, -⟩, -⟩, -⟩, -⟩, hrest⟩ := h
      rw [stays, Place.after_cons]
      by_cases hescape : c = '\\'
      · subst hescape
        exact hrest
      · rw [Place.first, if_neg hescape] at hrest
        by_cases hdollar : c = '$'
        · subst hdollar
          exact Place.complete_dollar hrest
        · have hnext : (Place.ofVariable false).next c = some .plain := by
            simp [Place.next, Place.ofVariable, hspace, hsemicolon, hopen, hescape, hdollar]
          rwa [hnext]

/-- A word goes on with a text that stays inside it. -/
theorem starts_append {first second : Text} (hfirst : starts first = true)
    (hsecond : stays (wordVariable first) second = true) : starts (first ++ second) = true := by
  cases first with
  | nil => cases hfirst
  | cons c rest =>
      simp only [starts, Bool.and_eq_true] at hfirst
      simp only [List.cons_append, starts, hfirst.1, Bool.true_and, Place.after_append]
      rw [Place.eq_of_complete hfirst.2]
      exact hsecond

/-! ## The ends of a word -/

theorem unescape_cons {c : Char} (h : c ≠ '\\') (rest : Text) :
    unescape (c :: rest) = c :: unescape rest := by
  rw [unescape] <;> simp_all

theorem unescape_kept {c : Char} (h : Place.replaced c = false) (rest : Text) :
    unescape ('\\' :: c :: rest) = '\\' :: unescape (c :: rest) := by
  rw [unescape] <;> simp_all [Place.replaced]

/-- The copy loop changes nothing in a text that stays inside a word. The induction
also follows a text whose first character stands after a backslash. -/
theorem unescape_of_after {place other : Place} {text : Text} (h : place.after text = some other) :
    (place ≠ .escaped → unescape text = text) ∧
      (place = .escaped → unescape ('\\' :: text) = '\\' :: text) := by
  -- the second half carries a backslash already read into the rest of the text
  induction text generalizing place with
  | nil => exact ⟨fun _ => rfl, fun _ => rfl⟩
  | cons c rest ih =>
      rw [Place.after_cons, Option.bind_eq_some_iff] at h
      obtain ⟨between, hnext, hrest⟩ := h
      obtain ⟨hplain, hescaped⟩ := ih hrest
      unfold Place.next at hnext
      refine ⟨fun hplace => ?_, fun hplace => ?_⟩
      · rw [if_neg hplace] at hnext
        by_cases hescape : c = '\\'
        · subst hescape
          cases hnext
          exact hescaped rfl
        · rw [unescape_cons hescape, hplain]
          rintro rfl
          split_ifs at hnext <;> cases hnext
      · rw [if_pos hplace] at hnext
        split at hnext
        · cases hnext
        next hkept =>
          cases hnext
          have hkept : Place.replaced c = false := by simpa using hkept
          have hescape : c ≠ '\\' := by
            rintro rfl
            cases hkept
          rw [unescape_kept hkept, unescape_cons hescape, hplain (by simp)]

theorem unescape_of_stays {inVariable : Bool} {text : Text} (h : stays inVariable text = true) :
    unescape text = text :=
  (unescape_of_after (Place.eq_of_complete h)).1 (by cases inVariable <;> simp [Place.ofVariable])

theorem unescape_append_of_stays {first second : Text} (hfirst : '\\' ∉ first)
    {inVariable : Bool} (hsecond : stays inVariable second = true) :
    unescape (first ++ second) = first ++ second := by
  induction first with
  | nil => exact unescape_of_stays hsecond
  | cons c rest ih =>
      rw [List.mem_cons, not_or] at hfirst
      rw [List.cons_append, unescape_cons (Ne.symm hfirst.1), ih hfirst.2]

theorem unescape_of_starts {text : Text} (h : starts text = true) : unescape text = text :=
  unescape_of_stays (stays_of_starts h)

theorem readChar_statement {raw : Text} (h : unescape raw = raw) (args : List Word)
    (inVariable : Bool) :
    (Scan.inWord args raw inVariable).readChar ';' =
      some (.start, [.statement (args ++ [raw])]) := by
  simp [Scan.readChar, Scan.plainChar, Scan.inside, Scan.inWord, Scan.found, Scan.done,
    isSpace, h]

theorem readChar_space {raw : Text} (h : unescape raw = raw) (args : List Word)
    (inVariable : Bool) :
    (Scan.inWord args raw inVariable).readChar ' ' = some (.words (args ++ [raw]), []) := by
  simp [Scan.readChar, Scan.plainChar, Scan.inside, Scan.inWord, Scan.found, Scan.more,
    Scan.words, isSpace, h]

theorem readChar_block {args : List Word} (h : args ≠ []) :
    (Scan.words args).readChar '{' = some (.start, [.blockStart args]) := by
  simp [Scan.readChar, Scan.plainChar, Scan.first, Scan.words, Scan.done, isSpace, h]

/-- The rest of a statement: further words, each after a blank, and a semicolon. -/
theorem reads_parameters {parameters : List Word}
    (h : ∀ parameter ∈ parameters, starts parameter = true) {raw : Text}
    (hraw : unescape raw = raw) (args : List Word) (inVariable : Bool) :
    Reads (.inWord args raw inVariable) (parameters.flatMap (fun word => ' ' :: word) ++ [';'])
      [.statement (args ++ raw :: parameters)] .start := by
  induction parameters generalizing args raw inVariable with
  | nil => exact Reads.cons (readChar_statement hraw args inVariable) (Reads.nil _)
  | cons parameter rest ih =>
      have hparameter := h parameter List.mem_cons_self
      have hrest := ih (fun other hother => h other (List.mem_cons_of_mem _ hother))
        (unescape_of_starts hparameter) (args ++ [raw]) (wordVariable parameter)
      rw [List.append_assoc, List.singleton_append] at hrest
      have hread := (reads_starts hparameter (args ++ [raw])).append hrest
      rw [List.flatMap_cons, List.cons_append, List.cons_append, List.append_assoc]
      exact Reads.cons (readChar_space hraw args inVariable) hread

end NginxInterface.ConfFile
