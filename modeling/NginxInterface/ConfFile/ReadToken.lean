import NginxInterface.Foundation.Runs
import NginxInterface.Js.Value

/-! # nginx's tokenizer

`ngx_conf_read_token` as a machine over characters. Its local variables are the
state; a call that returns a token is followed by a call that starts afresh. The
line numbers of messages are left out, and the read buffer with its limit of 4096 bytes
is in `ConfFile.Buffer`.
-/

namespace NginxInterface.ConfFile

open Foundation Js

abbrev Word := Text

/-- What a call of `ngx_conf_read_token` returns, apart from an error and the end
of the file: the words of a directive ended by `;` or `{`, or a `}`. -/
inductive Token where
  | statement (args : List Word)
  | blockStart (args : List Word)
  | blockDone
  deriving DecidableEq

/-- The local variables. `raw` holds the characters from `start` to the current
position. -/
structure Scan where
  args : List Word := []
  raw : Text := []
  needSpace : Bool := false
  lastSpace : Bool := true
  sharpComment : Bool := false
  inVariable : Bool := false
  quoted : Bool := false
  sQuoted : Bool := false
  dQuoted : Bool := false
  deriving DecidableEq

def isSpace (c : Char) : Bool := c == ' ' || c == '\t' || c == '\r' || c == '\n'

/-- The copy loop that turns the characters of a word into its value. -/
def unescape : Text → Word
  | [] => []
  | '\\' :: '"' :: rest => '"' :: unescape rest
  | '\\' :: '\'' :: rest => '\'' :: unescape rest
  | '\\' :: '\\' :: rest => '\\' :: unescape rest
  | '\\' :: 't' :: rest => '\t' :: unescape rest
  | '\\' :: 'r' :: rest => '\r' :: unescape rest
  | '\\' :: 'n' :: rest => '\n' :: unescape rest
  | c :: rest => c :: unescape rest

namespace Scan

/-- The state in which a call begins. -/
def start : Scan := {}

def more (scan : Scan) : Option (Scan × List Token) := some (scan, [])

def done (token : Token) : Option (Scan × List Token) := some (start, [token])

/-- The character belongs to the current word. -/
def keep (scan : Scan) (c : Char) : Scan := { scan with raw := scan.raw ++ [c] }

/-- The current word is complete. -/
def found (scan : Scan) (c : Char) : Option (Scan × List Token) :=
  let args := scan.args ++ [unescape scan.raw]
  if c = ';' then done (.statement args)
  else if c = '{' then done (.blockStart args)
  else more { scan with args := args, raw := [] }

/-- The first character after white space. -/
def first (scan : Scan) (c : Char) : Option (Scan × List Token) :=
  if isSpace c then more scan
  else if c = ';' then if scan.args = [] then none else done (.statement scan.args)
  else if c = '{' then if scan.args = [] then none else done (.blockStart scan.args)
  else if c = '}' then if scan.args ≠ [] then none else done .blockDone
  else if c = '#' then more { scan with sharpComment := true }
  else if c = '\\' then more { scan with raw := [c], quoted := true, lastSpace := false }
  else if c = '"' then more { scan with raw := [], dQuoted := true, lastSpace := false }
  else if c = '\'' then more { scan with raw := [], sQuoted := true, lastSpace := false }
  else more { scan with raw := [c], lastSpace := false }

/-- A character inside a word. -/
def inside (scan : Scan) (c : Char) : Option (Scan × List Token) :=
  if c = '{' ∧ scan.inVariable then more (scan.keep c)
  else
    let scan := { scan with inVariable := false }
    if c = '\\' then more { scan.keep c with quoted := true }
    else if c = '$' then more { scan.keep c with inVariable := true }
    else if scan.dQuoted then
      if c = '"' then found { scan with dQuoted := false, needSpace := true } c
      else more (scan.keep c)
    else if scan.sQuoted then
      if c = '\'' then found { scan with sQuoted := false, needSpace := true } c
      else more (scan.keep c)
    else if isSpace c ∨ c = ';' ∨ c = '{' then found { scan with lastSpace := true } c
    else more (scan.keep c)

def plainChar (scan : Scan) (c : Char) : Option (Scan × List Token) :=
  if scan.lastSpace then scan.first c else scan.inside c

/-- The body of the loop for one character; `none` is `NGX_ERROR`. -/
def readChar (scan : Scan) (c : Char) : Option (Scan × List Token) :=
  let scan := if c = '\n' then { scan with sharpComment := false } else scan
  if scan.sharpComment then more scan
  else if scan.quoted then more { scan.keep c with quoted := false }
  else if scan.needSpace then
    if isSpace c then more { scan with lastSpace := true, needSpace := false }
    else if c = ';' then done (.statement scan.args)
    else if c = '{' then done (.blockStart scan.args)
    -- a closing parenthesis ends the quoted word and is read as the next one
    else if c = ')' then plainChar { scan with lastSpace := true, needSpace := false } c
    else none
  else plainChar scan c

/-- Whether the end of the file is allowed here (`NGX_CONF_FILE_DONE`). -/
def atEnd (scan : Scan) : Bool := scan.args.isEmpty && scan.lastSpace

end Scan

/-- Read a text from a given state: the tokens, and the state at the end unless
the text was refused. -/
def scanText (scan : Scan) (text : Text) : List Token × Option Scan :=
  transduce Scan.readChar scan text

/-- Reading `text` from `scan` is accepted, yields `tokens` and ends in `final`. -/
def Reads (scan : Scan) (text : Text) (tokens : List Token) (final : Scan) : Prop :=
  scanText scan text = (tokens, some final)

instance (scan : Scan) (text : Text) (tokens : List Token) (final : Scan) :
    Decidable (Reads scan text tokens final) :=
  inferInstanceAs (Decidable (scanText scan text = (tokens, some final)))

theorem Reads.nil (scan : Scan) : Reads scan [] [] scan := rfl

theorem Reads.append {scan middle final : Scan} {first second : Text}
    {firstTokens secondTokens : List Token} (hfirst : Reads scan first firstTokens middle)
    (hsecond : Reads middle second secondTokens final) :
    Reads scan (first ++ second) (firstTokens ++ secondTokens) final := by
  unfold Reads scanText at *
  rw [transduce_append Scan.readChar second hfirst, hsecond]

theorem Reads.cons {scan middle final : Scan} {c : Char} {rest : Text}
    {emitted tokens : List Token} (hstep : scan.readChar c = some (middle, emitted))
    (hrest : Reads middle rest tokens final) :
    Reads scan (c :: rest) (emitted ++ tokens) final := by
  unfold Reads scanText at *
  rw [transduce_cons_of_step Scan.readChar rest hstep, hrest]

end NginxInterface.ConfFile
