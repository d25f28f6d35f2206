import Mathlib.Data.List.Infix

/-! # Backtracking patterns

A pattern is matched at the head of a text. Its parses are listed in the order in
which a backtracking matcher attempts them, and the match is the first of the list. A
repetition prefers the longest run, and a sequence gives up symbols of its first part
only when its second part fails on what is left.
-/

namespace Foundation

inductive Pattern (Symbol : Type) where
  | word (symbols : List Symbol)
  | one (member : Symbol → Bool)
  /-- Any number of symbols of a class, as many as possible first. -/
  | many (member : Symbol → Bool)
  | seq (first second : Pattern Symbol)
  | group (inner : Pattern Symbol)

/-- The symbols a pattern took, the contents of its groups in the order of their
opening brackets, and the text that is left. -/
structure Parse (Symbol : Type) where
  consumed : List Symbol
  groups : List (List Symbol)
  rest : List Symbol

namespace Parse

variable {Symbol : Type}

def push (symbol : Symbol) (parse : Parse Symbol) : Parse Symbol :=
  { parse with consumed := symbol :: parse.consumed }

/-- Continue a parse with a parse of its rest. -/
def append (first second : Parse Symbol) : Parse Symbol where
  consumed := first.consumed ++ second.consumed
  groups := first.groups ++ second.groups
  rest := second.rest

def enclose (parse : Parse Symbol) : Parse Symbol :=
  { parse with groups := parse.consumed :: parse.groups }

end Parse

namespace Pattern

variable {Symbol : Type}

def manyParses (member : Symbol → Bool) : List Symbol → List (Parse Symbol)
  | [] => [⟨[], [], []⟩]
  | symbol :: rest =>
      if member symbol then
        (manyParses member rest).map (Parse.push symbol) ++ [⟨[], [], symbol :: rest⟩]
      else [⟨[], [], symbol :: rest⟩]

/-- One or more symbols of a class, as many as possible first. -/
def plus (member : Symbol → Bool) : Pattern Symbol := .seq (.one member) (.many member)

section Parses

variable [BEq Symbol]

def parses : Pattern Symbol → List Symbol → List (Parse Symbol)
  | .word symbols, text =>
      match text.dropPrefix? symbols with
      | some rest => [⟨symbols, [], rest⟩]
      | none => []
  | .one _, [] => []
  | .one member, symbol :: rest => if member symbol then [⟨[symbol], [], rest⟩] else []
  | .many member, text => manyParses member text
  | .seq first second, text =>
      (first.parses text).flatMap fun parse => (second.parses parse.rest).map parse.append
  | .group inner, text => (inner.parses text).map Parse.enclose

/-- The match of a pattern at the head of a text, followed by its groups. -/
def exec (pattern : Pattern Symbol) (text : List Symbol) : Option (List (List Symbol)) :=
  (pattern.parses text).head?.map fun parse => parse.consumed :: parse.groups

def test (pattern : Pattern Symbol) (text : List Symbol) : Bool := (pattern.exec text).isSome

/-- The parse is the one the matcher finds. -/
def Prefers (pattern : Pattern Symbol) (text : List Symbol) (parse : Parse Symbol) : Prop :=
  (pattern.parses text).head? = some parse

theorem Prefers.exec {pattern : Pattern Symbol} {text : List Symbol} {parse : Parse Symbol}
    (h : pattern.Prefers text parse) :
    pattern.exec text = some (parse.consumed :: parse.groups) := by
  rw [Pattern.exec, h]
  rfl

theorem exec_eq_none {pattern : Pattern Symbol} {text : List Symbol}
    (h : pattern.parses text = []) : pattern.exec text = none := by
  rw [exec, h]
  rfl

theorem exec_of_test_eq_false {pattern : Pattern Symbol} {text : List Symbol}
    (h : pattern.test text = false) : pattern.exec text = none := by
  rwa [test, Option.isSome_eq_false_iff, Option.isNone_iff_eq_none] at h

theorem seq_parses_eq_nil {first : Pattern Symbol} (second : Pattern Symbol)
    {text : List Symbol} (h : first.parses text = []) :
    (first.seq second).parses text = [] := by
  rw [parses, h]
  rfl

/-! ## Matches without backtracking -/

theorem Prefers.seq {first second : Pattern Symbol} {text : List Symbol}
    {before after : Parse Symbol} (hfirst : first.Prefers text before)
    (hsecond : second.Prefers before.rest after) :
    (first.seq second).Prefers text (before.append after) := by
  unfold Prefers at *
  obtain ⟨others, hparses⟩ := List.head?_eq_some_iff.mp hfirst
  rw [parses, hparses, List.flatMap_cons, List.head?_append, List.head?_map, hsecond]
  rfl

theorem Prefers.group {inner : Pattern Symbol} {text : List Symbol} {parse : Parse Symbol}
    (h : inner.Prefers text parse) : inner.group.Prefers text parse.enclose := by
  unfold Prefers at *
  rw [parses, List.head?_map, h]
  rfl

theorem prefers_one {member : Symbol → Bool} {symbol : Symbol} (rest : List Symbol)
    (h : member symbol = true) :
    (Pattern.one member).Prefers (symbol :: rest) ⟨[symbol], [], rest⟩ := by
  rw [Prefers, parses, if_pos h]
  rfl

/-- A repetition takes a whole run if no symbol of the class follows it. -/
theorem prefers_many {member : Symbol → Bool} {taken rest : List Symbol}
    (htaken : ∀ symbol ∈ taken, member symbol = true)
    (hrest : ∀ symbol ∈ rest.head?, member symbol = false) :
    (Pattern.many member).Prefers (taken ++ rest) ⟨taken, [], rest⟩ := by
  rw [Prefers, parses]
  induction taken with
  | nil =>
      rw [List.nil_append]
      cases rest with
      | nil => rfl
      | cons symbol rest =>
          have hsymbol : member symbol = false := hrest symbol rfl
          rw [manyParses, hsymbol]
          rfl
  | cons symbol taken ih =>
      have hsymbol := htaken symbol List.mem_cons_self
      have hhead := ih fun other hother => htaken other (List.mem_cons_of_mem _ hother)
      rw [List.cons_append, manyParses, if_pos hsymbol, List.head?_append, List.head?_map, hhead]
      rfl

theorem prefers_plus {member : Symbol → Bool} {taken rest : List Symbol} (hne : taken ≠ [])
    (htaken : ∀ symbol ∈ taken, member symbol = true)
    (hrest : ∀ symbol ∈ rest.head?, member symbol = false) :
    (plus member).Prefers (taken ++ rest) ⟨taken, [], rest⟩ := by
  obtain ⟨symbol, others, rfl⟩ := List.exists_cons_of_ne_nil hne
  have hfirst : (Pattern.one member).Prefers (symbol :: (others ++ rest))
      ⟨[symbol], [], others ++ rest⟩ :=
    prefers_one _ (htaken symbol List.mem_cons_self)
  have hothers : (Pattern.many member).Prefers (others ++ rest) ⟨others, [], rest⟩ :=
    prefers_many (fun other hother => htaken other (List.mem_cons_of_mem _ hother)) hrest
  exact hfirst.seq hothers

end Parses

/-! ## Matches after backtracking -/

section Backtracking

variable [BEq Symbol] [LawfulBEq Symbol]

theorem prefers_word (symbols rest : List Symbol) :
    (Pattern.word symbols).Prefers (symbols ++ rest) ⟨symbols, [], rest⟩ := by
  rw [Prefers, parses, List.dropPrefix?_append_of_beq rest (beq_self_eq_true symbols)]
  rfl

theorem word_parses_eq_nil {symbols text : List Symbol} (h : ¬symbols <+: text) :
    (Pattern.word symbols).parses text = [] := by
  rw [parses]
  split
  next rest hdrop =>
    obtain ⟨taken, rfl, htaken⟩ := List.dropPrefix?_eq_some_iff.mp hdrop
    rw [eq_of_beq htaken] at h
    exact absurd (List.prefix_append _ _) h
  next => rfl

omit [BEq Symbol] [LawfulBEq Symbol] in
/-- The last parse of a repetition takes nothing, and the ones before it take
something. -/
theorem manyParses_eq_concat (member : Symbol → Bool) (text : List Symbol) :
    ∃ longer, manyParses member text = longer ++ [⟨[], [], text⟩] ∧
      ∀ parse ∈ longer, parse.consumed ≠ [] ∧ text = parse.consumed ++ parse.rest := by
  induction text with
  | nil => exact ⟨[], rfl, by simp⟩
  | cons symbol rest ih =>
      obtain ⟨longer, hparses, hlonger⟩ := ih
      cases hsymbol : member symbol with
      | false =>
          refine ⟨[], ?_, by simp⟩
          rw [manyParses, hsymbol]
          rfl
      | true =>
          refine ⟨(manyParses member rest).map (Parse.push symbol), ?_, ?_⟩
          · rw [manyParses, if_pos hsymbol]
          · intro parse hparse
            obtain ⟨shorter, hshorter, rfl⟩ := List.mem_map.mp hparse
            refine ⟨List.cons_ne_nil _ _, ?_⟩
            rw [hparses] at hshorter
            rcases List.mem_append.mp hshorter with hmem | hmem
            · exact congrArg (symbol :: ·) (hlonger shorter hmem).2
            · rw [List.mem_singleton.mp hmem]
              rfl

omit [LawfulBEq Symbol] in
/-- A repetition stops before the last place at which the pattern after it matches. -/
theorem prefers_many_seq {member : Symbol → Bool} {next : Pattern Symbol}
    {skipped text : List Symbol} {parse : Parse Symbol}
    (hskipped : ∀ symbol ∈ skipped, member symbol = true) (hnext : next.Prefers text parse)
    (hlast : ∀ more tail, more ≠ [] → text = more ++ tail → next.parses tail = []) :
    (Pattern.seq (.many member) next).Prefers (skipped ++ text)
      { parse with consumed := skipped ++ parse.consumed } := by
  unfold Prefers at *
  rw [parses, parses]
  induction skipped with
  | nil =>
      obtain ⟨longer, hparses, hlonger⟩ := manyParses_eq_concat member text
      have hfail : longer.flatMap
          (fun before => (next.parses before.rest).map before.append) = [] := by
        refine List.flatMap_eq_nil_iff.mpr fun before hbefore => ?_
        obtain ⟨hne, htext⟩ := hlonger before hbefore
        rw [hlast _ _ hne htext, List.map_nil]
      rw [List.nil_append, hparses, List.flatMap_append, hfail, List.nil_append,
        List.flatMap_singleton, List.head?_map, hnext]
      rfl
  | cons symbol skipped ih =>
      have hsymbol := hskipped symbol List.mem_cons_self
      have hhead := ih fun other hother => hskipped other (List.mem_cons_of_mem _ hother)
      have hpush : ((manyParses member (skipped ++ text)).map (Parse.push symbol)).flatMap
            (fun before => (next.parses before.rest).map before.append) =
          ((manyParses member (skipped ++ text)).flatMap
            fun before => (next.parses before.rest).map before.append).map
              (Parse.push symbol) := by
        rw [List.flatMap_map, List.map_flatMap]
        refine congrArg (List.flatMap · _) ?_
        funext before
        rw [List.map_map]
        rfl
      rw [List.cons_append, manyParses, if_pos hsymbol, List.flatMap_append, List.head?_append,
        hpush, List.head?_map, hhead]
      rfl

/-- Before a word, a repetition stops at the last occurrence of the word. -/
theorem prefers_many_word {member : Symbol → Bool} {next : Pattern Symbol}
    {skipped symbols rest : List Symbol} {parse : Parse Symbol}
    (hskipped : ∀ symbol ∈ skipped, member symbol = true) (hnext : next.Prefers rest parse)
    (hlast : ¬symbols <:+: (symbols ++ rest).tail) :
    (Pattern.seq (.many member) (.seq (.word symbols) next)).Prefers
      (skipped ++ (symbols ++ rest))
      { parse with consumed := skipped ++ (symbols ++ parse.consumed) } := by
  refine prefers_many_seq hskipped ((prefers_word symbols rest).seq hnext) ?_
  intro more tail hne htext
  refine seq_parses_eq_nil _ (word_parses_eq_nil fun hbegins => hlast ?_)
  obtain ⟨symbol, others, rfl⟩ := List.exists_cons_of_ne_nil hne
  rw [htext, List.cons_append, List.tail_cons]
  exact hbegins.isInfix.trans (List.suffix_append others tail).isInfix

end Backtracking

/-! ## Occurrences of a word -/

theorem infix_append_of_not_mem {symbol : Symbol} {others before after : List Symbol}
    (hbefore : symbol ∉ before) :
    symbol :: others <:+: before ++ after ↔ symbol :: others <:+: after := by
  induction before with
  | nil => rfl
  | cons head before ih =>
      rw [List.mem_cons, not_or] at hbefore
      rw [List.cons_append, List.infix_cons_iff, ih hbefore.2]
      refine or_iff_right fun hbegins => hbefore.1 ?_
      exact (List.cons_prefix_cons.mp hbegins).1

end Pattern

end Foundation
