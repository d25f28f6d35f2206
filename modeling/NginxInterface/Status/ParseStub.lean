import NginxInterface.Foundation.Backtrack
import NginxInterface.Js.Value

/-! # Reading the status page

`getStatus` fetches the page of nginx's `stub_status` handler and hands it to
`parseStub`, which tries three regular expressions on every line. The page holds one
line for each of them, and what is read back are the counters the handler printed.
-/

namespace NginxInterface

open Foundation Js

namespace Status

/-! ## The regular expressions -/

/-- `\d`. -/
def digit (c : Char) : Bool := c.isDigit

/-- `\s`: white space and line terminators. -/
def space (c : Char) : Bool :=
  (0x9 ≤ c.toNat && c.toNat ≤ 0xD) || c.toNat == 0x20 || c.toNat == 0xA0 || c.toNat == 0x1680 ||
    (0x2000 ≤ c.toNat && c.toNat ≤ 0x200A) || c.toNat == 0x2028 || c.toNat == 0x2029 ||
    c.toNat == 0x202F || c.toNat == 0x205F || c.toNat == 0x3000 || c.toNat == 0xFEFF

/-- `.`: everything but a line terminator. -/
def dot (c : Char) : Bool :=
  !(c.toNat == 0xA || c.toNat == 0xD || c.toNat == 0x2028 || c.toNat == 0x2029)

/-- `\s+(\d+)`. -/
def spacedNumber : Pattern Char := .seq (.plus space) (.group (.plus digit))

def activeLabel : Text := "Active connections:".toList

def readingLabel : Text := "Reading:".toList

def writingLabel : Text := "Writing:".toList

def waitingLabel : Text := "Waiting:".toList

def activeRegex : Pattern Char := .seq (.word activeLabel) spacedNumber

def readingWritingRegex : Pattern Char :=
  .seq (.word readingLabel) (.seq spacedNumber
    (.seq (.many dot) (.seq (.word writingLabel) (.seq spacedNumber
      (.seq (.many dot) (.seq (.word waitingLabel) spacedNumber))))))

def handledRegex : Pattern Char := .seq spacedNumber (.seq spacedNumber spacedNumber)

/-! ## The parser -/

/-- The object that `parseStub` fills. -/
structure StubStatus where
  active : Option Text := none
  reading : Option Text := none
  writing : Option Text := none
  waiting : Option Text := none
  accepted : Option Text := none
  handled : Option Text := none
  handles : Option Text := none
  deriving DecidableEq

/-- The body of the loop over the lines. -/
def parseLine (result : StubStatus) (line : Text) : StubStatus :=
  match activeRegex.exec line with
  | some groups => { result with active := groups[1]? }
  | none =>
      match readingWritingRegex.exec line with
      | some groups =>
          { result with reading := groups[1]?, writing := groups[2]?, waiting := groups[3]? }
      | none =>
          match handledRegex.exec line with
          | some groups =>
              { result with accepted := groups[1]?, handled := groups[2]?, handles := groups[3]? }
          | none => result

def parseStub (nginxStr : Text) : StubStatus := (nginxStr.splitOn '\n').foldl parseLine {}

/-! ## The page -/

/-- The counters that the handler reads. -/
structure Counters where
  active : Nat
  accepted : Nat
  handled : Nat
  requests : Nat
  reading : Nat
  writing : Nat
  waiting : Nat

def decimal (n : Nat) : Text := Nat.toDigits 10 n

namespace Counters

/-- `Active connections: %uA `. -/
def activeLine (counters : Counters) : Text :=
  activeLabel ++ [' '] ++ decimal counters.active ++ [' ']

def header : Text := "server accepts handled requests".toList

/-- ` %uA %uA %uA `. -/
def handledLine (counters : Counters) : Text :=
  [' '] ++ decimal counters.accepted ++ [' '] ++ decimal counters.handled ++ [' '] ++
    decimal counters.requests ++ [' ']

/-- `Reading: %uA Writing: %uA Waiting: %uA `. -/
def readingLine (counters : Counters) : Text :=
  readingLabel ++ [' '] ++ decimal counters.reading ++ [' '] ++
    writingLabel ++ [' '] ++ decimal counters.writing ++ [' '] ++
    waitingLabel ++ [' '] ++ decimal counters.waiting ++ [' ']

def dataLines (counters : Counters) : List Text :=
  [counters.activeLine, counters.handledLine, counters.readingLine]

/-- The body of the handler's response. -/
def page (counters : Counters) : Text :=
  counters.activeLine ++ ['\n'] ++ header ++ ['\n'] ++ counters.handledLine ++ ['\n'] ++
    counters.readingLine ++ ['\n']

/-- Every counter as decimal text; `handles` is the number of requests. -/
def status (counters : Counters) : StubStatus where
  active := decimal counters.active
  reading := decimal counters.reading
  writing := decimal counters.writing
  waiting := decimal counters.waiting
  accepted := decimal counters.accepted
  handled := decimal counters.handled
  handles := decimal counters.requests

end Counters

/-! ## Matching a line -/

theorem decimal_ne_nil (n : Nat) : decimal n ≠ [] := Nat.toDigits_ne_nil

theorem digit_of_mem_decimal {n : Nat} {c : Char} (h : c ∈ decimal n) : digit c = true :=
  Nat.isDigit_of_mem_toDigits (by decide) (by decide) h

theorem not_mem_decimal {c : Char} (hc : digit c = false) (n : Nat) : c ∉ decimal n := by
  intro hmem
  rw [digit_of_mem_decimal hmem] at hc
  cases hc

theorem not_digit_cons {c : Char} (hc : digit c = false) (rest : Text) :
    ∀ symbol ∈ (c :: rest).head?, digit symbol = false := by
  intro symbol hsymbol
  cases hsymbol
  exact hc

theorem not_space_of_digit {c : Char} (h : digit c = true) : space c = false := by
  have hrange : 48 ≤ c.toNat ∧ c.toNat ≤ 57 := Char.isDigit_iff_toNat.mp h
  simp only [space, Bool.or_eq_false_iff, Bool.and_eq_false_iff, decide_eq_false_iff_not,
    beq_eq_false_iff_ne]
  omega

/-- A number after one blank is taken whole. -/
theorem spacedNumber_prefers (n : Nat) {rest : Text}
    (hrest : ∀ c ∈ rest.head?, digit c = false) :
    spacedNumber.Prefers (' ' :: (decimal n ++ rest)) ⟨' ' :: decimal n, [decimal n], rest⟩ := by
  have hdigits : (Pattern.plus digit).Prefers (decimal n ++ rest) ⟨decimal n, [], rest⟩ :=
    Pattern.prefers_plus (decimal_ne_nil n) (fun c hc => digit_of_mem_decimal hc) hrest
  have hspace : (Pattern.plus space).Prefers ([' '] ++ (decimal n ++ rest))
      ⟨[' '], [], decimal n ++ rest⟩ := by
    refine Pattern.prefers_plus (List.cons_ne_nil _ _) (List.forall_mem_singleton.mpr rfl) ?_
    intro c hc
    obtain ⟨first, others, hdecimal⟩ := List.exists_cons_of_ne_nil (decimal_ne_nil n)
    have hfirst : digit first = true := digit_of_mem_decimal (hdecimal ▸ List.mem_cons_self)
    rw [hdecimal] at hc
    cases hc
    exact not_space_of_digit hfirst
  exact hspace.seq hdigits.group

namespace Counters

theorem activeRegex_exec (counters : Counters) :
    ∃ whole, activeRegex.exec counters.activeLine = some [whole, decimal counters.active] := by
  have hline : counters.activeLine =
      activeLabel ++ (' ' :: (decimal counters.active ++ [' '])) := by
    simp [activeLine]
  rw [hline]
  exact ⟨_, ((Pattern.prefers_word activeLabel _).seq
    (spacedNumber_prefers counters.active (not_digit_cons (by decide) []))).exec⟩

theorem handledRegex_exec (counters : Counters) :
    ∃ whole, handledRegex.exec counters.handledLine =
      some [whole, decimal counters.accepted, decimal counters.handled,
        decimal counters.requests] := by
  have hline : counters.handledLine =
      ' ' :: (decimal counters.accepted ++ (' ' :: (decimal counters.handled ++
        (' ' :: (decimal counters.requests ++ [' ']))))) := by
    simp [handledLine]
  have hblank (rest : Text) : ∀ c ∈ (' ' :: rest).head?, digit c = false :=
    not_digit_cons (by decide) rest
  rw [hline]
  exact ⟨_, ((spacedNumber_prefers counters.accepted (hblank _)).seq
    ((spacedNumber_prefers counters.handled (hblank _)).seq
      (spacedNumber_prefers counters.requests (hblank [])))).exec⟩

theorem not_mem_after_waiting (waiting : Nat) :
    'W' ∉ (waitingLabel ++ (' ' :: (decimal waiting ++ [' ']))).tail := by
  have hletters : 'W' ∉ waitingLabel.tail := by decide
  have hdigits : 'W' ∉ decimal waiting := not_mem_decimal (by decide) waiting
  have htail : (waitingLabel ++ (' ' :: (decimal waiting ++ [' ']))).tail =
      waitingLabel.tail ++ (' ' :: (decimal waiting ++ [' '])) := rfl
  simp [htail, hletters, hdigits]

/-- After its label the line has no second `Waiting:`. -/
theorem waitingLabel_last (waiting : Nat) :
    ¬waitingLabel <:+: (waitingLabel ++ (' ' :: (decimal waiting ++ [' ']))).tail := by
  intro hinside
  have hletter : 'W' ∈ waitingLabel := by decide
  exact not_mem_after_waiting waiting (hinside.subset hletter)

/-- After its label the line has no second `Writing:`, though `Waiting:` begins alike. -/
theorem writingLabel_last (writing waiting : Nat) :
    ¬writingLabel <:+: (writingLabel ++ (' ' :: (decimal writing ++ ([' '] ++
      (waitingLabel ++ (' ' :: (decimal waiting ++ [' ']))))))).tail := by
  have hletters : 'W' ∉ writingLabel.tail := by decide
  have hdigits : 'W' ∉ decimal writing := not_mem_decimal (by decide) writing
  have hbefore : 'W' ∉ writingLabel.tail ++ (' ' :: (decimal writing ++ [' '])) := by
    simp [hletters, hdigits]
  have htail : (writingLabel ++ (' ' :: (decimal writing ++ ([' '] ++
      (waitingLabel ++ (' ' :: (decimal waiting ++ [' ']))))))).tail =
      (writingLabel.tail ++ (' ' :: (decimal writing ++ [' ']))) ++
        ('W' :: (waitingLabel ++ (' ' :: (decimal waiting ++ [' ']))).tail) := by
    simp only [List.append_assoc, List.cons_append]
    rfl
  intro hinside
  rw [htail] at hinside
  have hlabel : 'W' :: writingLabel.tail <:+:
      'W' :: (waitingLabel ++ (' ' :: (decimal waiting ++ [' ']))).tail :=
    (Pattern.infix_append_of_not_mem hbefore).mp hinside
  rcases List.infix_cons_iff.mp hlabel with hbegins | hlater
  · -- the second letters differ
    have hsecond := (List.cons_prefix_cons.mp hbegins).2
    have hclash : 'r' = 'a' := (List.cons_prefix_cons.mp hsecond).1
    cases hclash
  · exact not_mem_after_waiting waiting (hlater.subset List.mem_cons_self)

theorem readingWritingRegex_exec (counters : Counters) :
    ∃ whole, readingWritingRegex.exec counters.readingLine =
      some [whole, decimal counters.reading, decimal counters.writing,
        decimal counters.waiting] := by
  have hblank (rest : Text) : ∀ c ∈ (' ' :: rest).head?, digit c = false :=
    not_digit_cons (by decide) rest
  have hskipped : ∀ c ∈ [' '], dot c = true := List.forall_mem_singleton.mpr rfl
  have hwaiting := Pattern.prefers_many_word hskipped
    (spacedNumber_prefers counters.waiting (hblank [])) (waitingLabel_last counters.waiting)
  have hwriting := Pattern.prefers_many_word hskipped
    ((spacedNumber_prefers counters.writing (hblank _)).seq hwaiting)
    (writingLabel_last counters.writing counters.waiting)
  have hreading := (Pattern.prefers_word readingLabel _).seq
    ((spacedNumber_prefers counters.reading (hblank _)).seq hwriting)
  have hline : counters.readingLine =
      readingLabel ++ (' ' :: (decimal counters.reading ++ ([' '] ++ (writingLabel ++
        (' ' :: (decimal counters.writing ++ ([' '] ++ (waitingLabel ++
          (' ' :: (decimal counters.waiting ++ [' '])))))))))) := by
    simp [readingLine]
  rw [hline]
  exact ⟨_, hreading.exec⟩

end Counters

/-! ## One line of the loop -/

/-- A regular expression that begins with a label rejects a line that begins with
another letter. -/
theorem exec_of_other_letter {label line : Text} (next : Pattern Char) (hlabel : label ≠ [])
    (hhead : label.head? ≠ line.head?) : (Pattern.seq (.word label) next).exec line = none := by
  refine Pattern.exec_eq_none (Pattern.seq_parses_eq_nil _ (Pattern.word_parses_eq_nil ?_))
  rintro ⟨rest, rfl⟩
  obtain ⟨letter, letters, rfl⟩ := List.exists_cons_of_ne_nil hlabel
  exact hhead rfl

/-- The line matches none of the three regular expressions. -/
def Unread (line : Text) : Prop :=
  activeRegex.test line = false ∧ readingWritingRegex.test line = false ∧
    handledRegex.test line = false

instance (line : Text) : Decidable (Unread line) := inferInstanceAs (Decidable (_ ∧ _))

theorem parseLine_of_unread {line : Text} (h : Unread line) (result : StubStatus) :
    parseLine result line = result := by
  simp only [parseLine, Pattern.exec_of_test_eq_false h.1, Pattern.exec_of_test_eq_false h.2.1,
    Pattern.exec_of_test_eq_false h.2.2]

/-- A line that begins with none of the letters and no white space is not read. -/
theorem unread_of_first {c : Char} (rest : Text) (hactive : c ≠ 'A') (hreading : c ≠ 'R')
    (hspace : space c = false) : Unread (c :: rest) := by
  have hclass : (Pattern.one space).parses (c :: rest) = [] := by simp [Pattern.parses, hspace]
  have hnumber : spacedNumber.parses (c :: rest) = [] :=
    Pattern.seq_parses_eq_nil _ (Pattern.seq_parses_eq_nil _ hclass)
  have hhandled : handledRegex.exec (c :: rest) = none :=
    Pattern.exec_eq_none (Pattern.seq_parses_eq_nil _ hnumber)
  have hfirst : activeRegex.exec (c :: rest) = none :=
    exec_of_other_letter _ (by decide) fun hhead => hactive (Option.some.inj hhead).symm
  have hsecond : readingWritingRegex.exec (c :: rest) = none :=
    exec_of_other_letter _ (by decide) fun hhead => hreading (Option.some.inj hhead).symm
  exact ⟨by rw [Pattern.test, hfirst]; rfl, by rw [Pattern.test, hsecond]; rfl,
    by rw [Pattern.test, hhandled]; rfl⟩

theorem unread_nil : Unread [] := by decide

namespace Counters

theorem parseLine_activeLine (counters : Counters) (result : StubStatus) :
    parseLine result counters.activeLine =
      { result with active := some (decimal counters.active) } := by
  obtain ⟨whole, hmatch⟩ := counters.activeRegex_exec
  simp [parseLine, hmatch]

theorem parseLine_readingLine (counters : Counters) (result : StubStatus) :
    parseLine result counters.readingLine =
      { result with
        reading := some (decimal counters.reading)
        writing := some (decimal counters.writing)
        waiting := some (decimal counters.waiting) } := by
  have hactive : activeRegex.exec counters.readingLine = none :=
    exec_of_other_letter _ (by decide) (show some 'A' ≠ some 'R' by decide)
  obtain ⟨whole, hmatch⟩ := counters.readingWritingRegex_exec
  simp [parseLine, hactive, hmatch]

theorem parseLine_handledLine (counters : Counters) (result : StubStatus) :
    parseLine result counters.handledLine =
      { result with
        accepted := some (decimal counters.accepted)
        handled := some (decimal counters.handled)
        handles := some (decimal counters.requests) } := by
  have hactive : activeRegex.exec counters.handledLine = none :=
    exec_of_other_letter _ (by decide) (show some 'A' ≠ some ' ' by decide)
  have hreading : readingWritingRegex.exec counters.handledLine = none :=
    exec_of_other_letter _ (by decide) (show some 'R' ≠ some ' ' by decide)
  obtain ⟨whole, hmatch⟩ := counters.handledRegex_exec
  simp [parseLine, hactive, hreading, hmatch]

/-! ## The whole page -/

theorem foldl_parseLine_unread {others : List Text} (hothers : ∀ line ∈ others, Unread line)
    (result : StubStatus) : others.foldl parseLine result = result := by
  induction others with
  | nil => rfl
  | cons line rest ih =>
      rw [List.foldl_cons, parseLine_of_unread (hothers line List.mem_cons_self)]
      exact ih fun other hother => hothers other (List.mem_cons_of_mem _ hother)

/-- Two lines of the page set different fields. -/
theorem parseLine_comm (counters : Counters) {first second : Text}
    (hfirst : first ∈ counters.dataLines ∨ Unread first)
    (hsecond : second ∈ counters.dataLines ∨ Unread second) (result : StubStatus) :
    parseLine (parseLine result first) second = parseLine (parseLine result second) first := by
  rcases hfirst with hfirst | hfirst
  · rcases hsecond with hsecond | hsecond
    · simp only [dataLines, List.mem_cons, List.not_mem_nil, or_false] at hfirst hsecond
      rcases hfirst with rfl | rfl | rfl <;> rcases hsecond with rfl | rfl | rfl <;>
        simp only [parseLine_activeLine, parseLine_handledLine, parseLine_readingLine]
    · rw [parseLine_of_unread hsecond, parseLine_of_unread hsecond]
  · rw [parseLine_of_unread hfirst, parseLine_of_unread hfirst]

/-- The order of the lines does not matter. -/
theorem foldl_parseLine_perm (counters : Counters) {lines others : List Text}
    (hothers : ∀ line ∈ others, Unread line)
    (hlines : lines.Perm (counters.dataLines ++ others)) :
    lines.foldl parseLine {} = counters.status := by
  have hkind : ∀ line ∈ lines, line ∈ counters.dataLines ∨ Unread line := by
    intro line hline
    rcases List.mem_append.mp (hlines.mem_iff.mp hline) with hdata | hother
    · exact Or.inl hdata
    · exact Or.inr (hothers line hother)
  calc lines.foldl parseLine {}
      = (counters.dataLines ++ others).foldl parseLine {} :=
        hlines.foldl_eq' (fun first hfirst second hsecond result =>
          counters.parseLine_comm (hkind first hfirst) (hkind second hsecond) result) {}
    _ = counters.dataLines.foldl parseLine {} := by
        rw [List.foldl_append, foldl_parseLine_unread hothers]
    _ = counters.status := by
        simp only [dataLines, List.foldl_cons, List.foldl_nil, parseLine_activeLine,
          parseLine_handledLine, parseLine_readingLine, status]

theorem dataLines_one_line (counters : Counters) : ∀ line ∈ counters.dataLines, '\n' ∉ line := by
  have hdecimal (n : Nat) : '\n' ∉ decimal n := not_mem_decimal (by decide) n
  have hlabels : '\n' ∉ activeLabel ∧ '\n' ∉ readingLabel ∧ '\n' ∉ writingLabel ∧
      '\n' ∉ waitingLabel := by decide
  obtain ⟨hactive, hreading, hwriting, hwaiting⟩ := hlabels
  intro line hline
  simp only [dataLines, List.mem_cons, List.not_mem_nil, or_false] at hline
  rcases hline with rfl | rfl | rfl
  · simp [activeLine, hactive, hdecimal]
  · simp [handledLine, hdecimal]
  · simp [readingLine, hreading, hwriting, hwaiting, hdecimal]

end Counters

theorem intercalate_terminated (lines : List Text) :
    ['\n'].intercalate (lines ++ [[]]) = lines.flatMap (· ++ ['\n']) := by
  induction lines with
  | nil => rfl
  | cons line rest ih =>
      rw [List.cons_append, List.intercalate_cons_of_ne_nil (by simp), ih, List.flatMap_cons]

theorem parseStub_intercalate {lines : List Text} (hne : lines ≠ [])
    (hone : ∀ line ∈ lines, '\n' ∉ line) :
    parseStub (['\n'].intercalate lines) = lines.foldl parseLine {} := by
  rw [parseStub, List.splitOn_intercalate '\n' hone hne]

/-- Nothing is read after the last line break. -/
theorem parseStub_terminated {lines : List Text} (hone : ∀ line ∈ lines, '\n' ∉ line) :
    parseStub (lines.flatMap (· ++ ['\n'])) = lines.foldl parseLine {} := by
  have hall : ∀ line ∈ lines ++ [[]], '\n' ∉ line := by
    intro line hline
    rcases List.mem_append.mp hline with hmem | hlast
    · exact hone line hmem
    · rw [List.mem_singleton.mp hlast]
      exact List.not_mem_nil
  rw [← intercalate_terminated, parseStub_intercalate (by simp) hall, List.foldl_append,
    List.foldl_cons, List.foldl_nil, parseLine_of_unread unread_nil]

namespace Counters

/-- From the three lines that the handler prints, in any order and among any lines that
none of the regular expressions matches, exactly the counters are read back. -/
theorem parseStub_dataLines (counters : Counters) (lines others : List Text)
    (hothers : ∀ line ∈ others, '\n' ∉ line ∧ Unread line)
    (hlines : lines.Perm (counters.dataLines ++ others)) :
    parseStub (['\n'].intercalate lines) = counters.status := by
  have hone : ∀ line ∈ lines, '\n' ∉ line := by
    intro line hline
    rcases List.mem_append.mp (hlines.mem_iff.mp hline) with hdata | hother
    · exact counters.dataLines_one_line line hdata
    · exact (hothers line hother).1
  have hne : lines ≠ [] := by
    rintro rfl
    exact absurd hlines.length_eq (by simp [dataLines])
  rw [parseStub_intercalate hne hone]
  exact counters.foldl_parseLine_perm (fun line hline => (hothers line hline).2) hlines

/-- The counters of a busy server. -/
def busy : Counters where
  active := 291
  accepted := 16630948
  handled := 16630948
  requests := 31070465
  reading := 6
  writing := 179
  waiting := 106

theorem header_unread : Unread header :=
  unread_of_first header.tail (by decide) (by decide) (by decide)

theorem header_one_line : '\n' ∉ header := by decide

theorem parseStub_dataLines_reversed :
    parseStub (['\n'].intercalate (busy.dataLines ++ [header, []]).reverse) = busy.status := by
  refine parseStub_dataLines busy _ [header, []] ?_ (List.reverse_perm _)
  intro line hline
  rcases List.mem_cons.mp hline with rfl | hline
  · exact ⟨header_one_line, header_unread⟩
  · rw [List.mem_singleton.mp hline]
    exact ⟨List.not_mem_nil, unread_nil⟩

/-- The page of the handler is read back. -/
theorem parseStub_page (counters : Counters) : parseStub counters.page = counters.status := by
  have hpage : counters.page = [counters.activeLine, header, counters.handledLine,
      counters.readingLine].flatMap (· ++ ['\n']) := by
    simp [page]
  have hone : ∀ line ∈ [counters.activeLine, header, counters.handledLine,
      counters.readingLine], '\n' ∉ line := by
    have hdata := counters.dataLines_one_line
    simp only [dataLines, List.forall_mem_cons] at hdata ⊢
    exact ⟨hdata.1, header_one_line, hdata.2⟩
  rw [hpage, parseStub_terminated hone]
  refine counters.foldl_parseLine_perm (List.forall_mem_singleton.mpr header_unread) ?_
  refine List.Perm.cons _ ?_
  exact (@List.perm_middle _ header [counters.handledLine, counters.readingLine] []).symm

end Counters

end Status

end NginxInterface
