import NginxInterface.ConfFile.ReadToken

/-! # Directives

`ngx_conf_parse` calls the tokenizer until the end of the file and itself for
every block, so that an accepted file is a list of directives, each with words
and, if it is a block, with directives of its own.
-/

namespace NginxInterface.ConfFile

open Js

inductive Directive where
  | simple (words : List Word)
  | block (words : List Word) (body : List Directive)

/-- Assemble directives from tokens, keeping the words and the earlier siblings
of every open block. Closing a block that is not open and ending the file inside
a block are refused. -/
def assemble : List (List Word × List Directive) → List Directive → List Token →
    Option (List Directive)
  | [], directives, [] => some directives
  | _ :: _, _, [] => none
  | stack, directives, .statement words :: rest =>
      assemble stack (directives ++ [.simple words]) rest
  | stack, directives, .blockStart words :: rest =>
      assemble ((words, directives) :: stack) [] rest
  | (words, outer) :: stack, directives, .blockDone :: rest =>
      assemble stack (outer ++ [.block words directives]) rest
  | [], _, .blockDone :: _ => none

/-- The tokens of a file up to its end. -/
def tokens? (text : Text) : Option (List Token) :=
  match scanText Scan.start text with
  | (tokens, some scan) => if scan.atEnd then some tokens else none
  | (_, none) => none

/-- Read a whole configuration file. -/
def readConf (text : Text) : Option (List Directive) :=
  (tokens? text).bind (assemble [] [])

/-! ## Writing directives as tokens -/

mutual
def Directive.tokens : Directive → List Token
  | .simple words => [.statement words]
  | .block words body => .blockStart words :: (tokensOf body ++ [.blockDone])

def tokensOf : List Directive → List Token
  | [] => []
  | directive :: rest => directive.tokens ++ tokensOf rest
end

@[simp] theorem tokensOf_nil : tokensOf [] = [] := rfl

@[simp] theorem tokensOf_cons (directive : Directive) (rest : List Directive) :
    tokensOf (directive :: rest) = directive.tokens ++ tokensOf rest := rfl

theorem tokensOf_append (first second : List Directive) :
    tokensOf (first ++ second) = tokensOf first ++ tokensOf second := by
  induction first with
  | nil => rfl
  | cons directive rest ih =>
      rw [List.cons_append, tokensOf_cons, tokensOf_cons, ih, List.append_assoc]

theorem tokensOf_flatMap {Item : Type} (items : List Item) (f : Item → List Directive) :
    tokensOf (items.flatMap f) = items.flatMap fun item => tokensOf (f item) := by
  induction items with
  | nil => rfl
  | cons item rest ih => rw [List.flatMap_cons, tokensOf_append, ih, List.flatMap_cons]

mutual
/-- The tokens of a directive assemble to that directive. -/
theorem assemble_tokens (directive : Directive) (stack : List (List Word × List Directive))
    (before : List Directive) (rest : List Token) :
    assemble stack before (directive.tokens ++ rest) =
      assemble stack (before ++ [directive]) rest := by
  cases directive with
  | simple words =>
      rw [Directive.tokens, List.singleton_append]
      cases stack <;> rfl
  | block words body =>
      have hbody := assemble_tokensOf body ((words, before) :: stack) []
        (.blockDone :: rest)
      rw [Directive.tokens, List.cons_append, List.append_assoc, List.singleton_append]
      have hopen : assemble stack before
          (.blockStart words :: (tokensOf body ++ .blockDone :: rest)) =
          assemble ((words, before) :: stack) [] (tokensOf body ++ .blockDone :: rest) := by
        cases stack <;> rfl
      rw [hopen, hbody]
      rfl

/-- Reading back a list of directives continues after it. -/
theorem assemble_tokensOf (directives : List Directive)
    (stack : List (List Word × List Directive)) (before : List Directive)
    (rest : List Token) :
    assemble stack before (tokensOf directives ++ rest) =
      assemble stack (before ++ directives) rest := by
  cases directives with
  | nil => rw [tokensOf_nil, List.nil_append, List.append_nil]
  | cons directive tail =>
      rw [tokensOf_cons, List.append_assoc, assemble_tokens directive,
        assemble_tokensOf tail, List.append_assoc, List.singleton_append]
end

/-- A text whose tokens are those of a list of directives reads as that list. -/
theorem readConf_of_reads {text : Text} {directives : List Directive}
    (hreads : Reads Scan.start text (tokensOf directives) Scan.start) :
    readConf text = some directives := by
  have htokens : tokens? text = some (tokensOf directives) := by
    unfold tokens?
    rw [hreads]
    rfl
  have hassemble := assemble_tokensOf directives [] [] []
  rw [List.append_nil, List.nil_append] at hassemble
  rw [readConf, htokens, Option.bind_some, hassemble]
  rfl

end NginxInterface.ConfFile
