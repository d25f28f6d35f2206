import NginxInterface.ConfFile.Directive

/-! # Commands

`ngx_conf_handler` looks up a directive among the commands of a context, checks how it ends
and how many arguments it has, and calls the handler of the command.
-/

namespace NginxInterface.ConfFile

open Js

/-- Why a file is refused. `message` is what a handler logs, with the word it names, and
`directive` is what it returns. -/
inductive ConfError where
  | unknownDirective (name : Word)
  | notTerminated (name : Word)
  | noOpening (name : Word)
  | invalidNumber (name : Word)
  | directive (name : Word) (text : String)
  | message (text : String) (word : Word)
  deriving DecidableEq

/-- How many arguments a command takes. -/
inductive Arity where
  | noArgs
  | take1
  | take2
  | take12
  | take01
  | oneMore
  deriving DecidableEq

/-- `nelts` counts the name as well. -/
def Arity.accepts (nelts : Nat) : Arity → Bool
  | .noArgs => nelts = 1
  | .take1 => nelts = 2
  | .take2 => nelts = 3
  | .take12 => nelts = 2 || nelts = 3
  | .take01 => nelts = 1 || nelts = 2
  | .oneMore => nelts ≥ 2

/-- The handler of a command, which is given the words of the directive. A block also has
directives of its own. -/
inductive Handler (State : Type) where
  | simple (set : State → List Word → Except ConfError State)
  | block (set : State → List Word → List Directive → Except ConfError State)

structure Command (State : Type) where
  name : Word
  arity : Arity
  set : Handler State

variable {State : Type}

def Directive.words : Directive → List Word
  | .simple words => words
  | .block words _ => words

def Directive.name (directive : Directive) : Word := directive.words.headD []

/-- `ngx_conf_handler`, with the commands of the context. -/
def confHandler (commands : List (Command State)) (state : State) (directive : Directive) :
    Except ConfError State :=
  match commands.find? fun command => command.name = directive.name with
  | none => .error (.unknownDirective directive.name)
  | some ⟨name, arity, set⟩ =>
      match directive, set with
      | .block .., .simple _ => .error (.notTerminated name)
      | .simple _, .block _ => .error (.noOpening name)
      | .simple words, .simple set =>
          if arity.accepts words.length then set state words else .error (.invalidNumber name)
      | .block words body, .block set =>
          if arity.accepts words.length then set state words body
          else .error (.invalidNumber name)

/-- `ngx_conf_parse` inside of a block. -/
def confParse (commands : List (Command State)) (state : State) (body : List Directive) :
    Except ConfError State :=
  body.foldlM (confHandler commands) state

section Rules

variable {commands : List (Command State)} {state : State}

@[simp] theorem confParse_nil : confParse commands state [] = .ok state := rfl

theorem confParse_append (first second : List Directive) :
    confParse commands state (first ++ second) =
      (confParse commands state first).bind fun next => confParse commands next second :=
  List.foldlM_append

theorem confHandler_simple {words : List Word} {name : Word} {arity : Arity}
    {set : State → List Word → Except ConfError State}
    (hfind : commands.find? (fun command => decide (command.name = words.headD [])) =
      some ⟨name, arity, .simple set⟩) (harity : arity.accepts words.length = true) :
    confHandler commands state (.simple words) = set state words := by
  unfold confHandler
  rw [show (Directive.simple words).name = words.headD [] from rfl, hfind]
  exact if_pos harity

end Rules

end NginxInterface.ConfFile
