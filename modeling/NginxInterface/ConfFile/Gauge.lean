import NginxInterface.ConfFile.Buffer
import NginxInterface.ConfFile.Words

/-! # Room in the buffer

Which texts the tokenizer gets through with its buffer. What it has to hold at a time is a word, or
a comment with the white space behind it.
-/

namespace NginxInterface.ConfFile

open Foundation Js

/-- The number of bytes of a text. -/
def size : Text → Nat
  | [] => 0
  | c :: rest => c.utf8Size + size rest

theorem size_append (first second : Text) : size (first ++ second) = size first + size second := by
  induction first with
  | nil => simp [size]
  | cons c rest ih => rw [List.cons_append, size, size, ih, Nat.add_assoc]

theorem Scan.gaugeText_append (scan : Scan) (held : Nat) (first second : Text) :
    scan.gaugeText held (first ++ second) =
      (scan.gaugeText held first).bind fun state => state.1.gaugeText state.2 second :=
  List.foldlM_append

/-! ## Texts that are held as a whole -/

/-- A character that is added to what is held. -/
theorem Scan.gauge_stay {scan next : Scan} {c : Char} (hread : scan.readChar c = some (next, []))
    (hmark : scan.mark c [] = .stay) (held : Nat) :
    scan.gauge held c =
      if held + c.utf8Size ≤ confBuffer then some (next, held + c.utf8Size) else none := by
  have hsize := c.utf8Size_pos
  have hkept : held + 1 + (c.utf8Size - 1) = held + c.utf8Size := by omega
  unfold gauge
  rw [hread, Option.bind_some]
  simp only [hmark, Mark.count, hkept]
  congr 1
  exact propext ⟨And.right, fun h => ⟨by omega, h⟩⟩

/-- A character from which on the text is held. -/
theorem Scan.gauge_before {scan next : Scan} {c : Char} (hread : scan.readChar c = some (next, []))
    (hmark : scan.mark c [] = .before) (held : Nat) :
    scan.gauge held c = if held < confBuffer then some (next, c.utf8Size) else none := by
  have hkept : 1 + (c.utf8Size - 1) = c.utf8Size := Nat.add_sub_cancel' c.utf8Size_pos
  have hlarge : c.utf8Size ≤ confBuffer := Nat.le_trans c.utf8Size_le_four (by decide)
  unfold gauge
  rw [hread, Option.bind_some]
  simp only [hmark, Mark.count, hkept, hlarge, and_true]

/-- All of the text is added to what is held. -/
def Holds (scan : Scan) (text : Text) (final : Scan) : Prop :=
  ∀ held ≤ confBuffer, scan.gaugeText held text =
    if held + size text ≤ confBuffer then some (final, held + size text) else none

theorem Holds.nil (scan : Scan) : Holds scan [] scan := fun _ hheld => (if_pos hheld).symm

theorem Holds.cons {scan next final : Scan} {c : Char} {rest : Text}
    (hread : scan.readChar c = some (next, [])) (hmark : scan.mark c [] = .stay)
    (hrest : Holds next rest final) : Holds scan (c :: rest) final := by
  intro held _
  rw [Scan.gaugeText_cons, Scan.gauge_stay hread hmark, size, ← Nat.add_assoc]
  by_cases hroom : held + c.utf8Size ≤ confBuffer
  · rw [if_pos hroom, Option.bind_some, hrest _ hroom]
  · rw [if_neg hroom, Option.bind_none, if_neg (by omega)]

theorem Holds.append {scan middle final : Scan} {first second : Text}
    (hfirst : Holds scan first middle) (hsecond : Holds middle second final) :
    Holds scan (first ++ second) final := by
  intro held hheld
  rw [Scan.gaugeText_append, hfirst held hheld, size_append, ← Nat.add_assoc]
  by_cases hroom : held + size first ≤ confBuffer
  · rw [if_pos hroom, Option.bind_some, hsecond _ hroom]
  · rw [if_neg hroom, Option.bind_none, if_neg (by omega)]

theorem holds_after {place other : Place} {text : Text} (h : place.after text = some other)
    (args : List Word) (raw : Text) :
    Holds (.atPlace args raw place) text (.atPlace args (raw ++ text) other) := by
  induction text generalizing place raw with
  | nil =>
      cases h
      rw [List.append_nil]
      exact Holds.nil _
  | cons c rest ih =>
      rw [Place.after_cons, Option.bind_eq_some_iff] at h
      obtain ⟨between, hnext, hrest⟩ := h
      have hmark : (Scan.atPlace args raw place).mark c [] = .stay := by
        simp [Scan.mark, Scan.atPlace]
      have htail := ih hrest (raw ++ [c])
      rw [List.append_assoc, List.singleton_append] at htail
      exact .cons (readChar_next hnext args raw) hmark htail

theorem holds_comment {text : Text} (h : '\n' ∉ text) : Holds .comment text .comment := by
  induction text with
  | nil => exact Holds.nil _
  | cons c rest ih =>
      rw [List.mem_cons, not_or] at h
      exact .cons (readChar_comment (Ne.symm h.1)) rfl (ih h.2)

theorem holds_blanks {text : Text} (h : text.all isSpace = true) : Holds .start text .start := by
  induction text with
  | nil => exact Holds.nil _
  | cons c rest ih =>
      rw [List.all_cons, Bool.and_eq_true] at h
      have hread : Scan.start.readChar c = some (.start, []) := by
        simp [Scan.readChar, Scan.plainChar, Scan.first, Scan.start, Scan.more, h.1]
      exact .cons hread (by simp [Scan.mark, h.1]) (ih h.2)

/-- A word is held from its first character on. -/
theorem gaugeText_word {text : Text} (h : starts text = true) (args : List Word) {held : Nat}
    (hheld : held < confBuffer) :
    (Scan.words args).gaugeText held text =
      if size text ≤ confBuffer then some (.inWord args text (wordVariable text), size text)
      else none := by
  cases text with
  | nil => cases h
  | cons c rest =>
      obtain ⟨hread, hrest⟩ := readChar_starts h args
      have hmark : (Scan.words args).mark c [] = .before := by
        simp only [starts, Bool.and_eq_true, Bool.not_eq_true', Bool.or_eq_false_iff,
          decide_eq_false_iff_not] at h
        simp [Scan.mark, Scan.words, h]
      have hlarge : c.utf8Size ≤ confBuffer := Nat.le_trans c.utf8Size_le_four (by decide)
      rw [Scan.gaugeText_cons, Scan.gauge_before hread hmark, if_pos hheld, Option.bind_some,
        holds_after hrest args [c] _ hlarge, Scan.atPlace_ofVariable]
      rfl

/-! ## The ends of words and comments -/

section Ends

variable {args : List Word} {raw : Text} {inVariable : Bool}

/-- A token leaves nothing in use. -/
theorem Scan.gauge_token {scan next : Scan} {c : Char} {token : Token} {held : Nat}
    (hread : scan.readChar c = some (next, [token])) (hsize : c.utf8Size = 1) :
    scan.gauge held c = if held < confBuffer then some (next, 0) else none := by
  have hmark : scan.mark c [token] = .after := by simp [mark]
  unfold gauge
  rw [hread, Option.bind_some]
  simp [hmark, Mark.count, hsize]

theorem gauge_statement (hraw : unescape raw = raw) (held : Nat) :
    (Scan.inWord args raw inVariable).gauge held ';' =
      if held < confBuffer then some (.start, 0) else none :=
  Scan.gauge_token (readChar_statement hraw args inVariable) (by decide)

theorem gauge_space (hraw : unescape raw = raw) (held : Nat) :
    (Scan.inWord args raw inVariable).gauge held ' ' =
      if held < confBuffer then some (.words (args ++ [raw]), held + 1) else none :=
  Scan.gauge_stay (readChar_space hraw args inVariable) (by simp [Scan.mark, isSpace]) held

theorem gauge_block (h : args ≠ []) (held : Nat) :
    (Scan.words args).gauge held '{' = if held < confBuffer then some (.start, 0) else none :=
  Scan.gauge_token (readChar_block h) (by decide)

end Ends

/-! ## Conditions -/

/-- From `scan`, with at most `held` bytes in use, the tokenizer gets through the text exactly
if `p`. It ends in `final` then, with at most `kept` bytes in use. -/
def Takes (scan : Scan) (held : Nat) (text : Text) (p : Prop) (final : Scan) (kept : Nat) : Prop :=
  ∀ count ≤ held, (p → ∃ left ≤ kept, scan.gaugeText count text = some (final, left)) ∧
    (¬p → scan.gaugeText count text = none)

section Takes

variable {scan middle final : Scan} {held between kept : Nat} {first second : Text} {p q : Prop}

theorem Takes.congr (h : Takes scan held first p final kept) (hp : p ↔ q) :
    Takes scan held first q final kept := propext hp ▸ h

theorem Takes.nil : Takes scan held [] True scan held :=
  fun count hcount => ⟨fun _ => ⟨count, hcount, rfl⟩, fun h => absurd trivial h⟩

/-- There is always room for nothing. -/
theorem Takes.of_nil (h : Takes scan held [] p final kept) : p := by
  by_contra hp
  cases (h held (Nat.le_refl held)).2 hp

theorem Takes.fits_iff (h : Takes .start 0 first p final kept) : Fits first ↔ p := by
  obtain ⟨htaken, hrefused⟩ := h 0 (Nat.le_refl 0)
  unfold Fits
  by_cases hp : p
  · obtain ⟨left, -, heq⟩ := htaken hp
    simp [heq, hp]
  · simp [hrefused hp, hp]

theorem Takes.append (hfirst : Takes scan held first p middle between)
    (hsecond : Takes middle between second q final kept) :
    Takes scan held (first ++ second) (p ∧ q) final kept := by
  intro count hcount
  rw [Scan.gaugeText_append]
  obtain ⟨htaken, hrefused⟩ := hfirst count hcount
  by_cases hp : p
  · obtain ⟨left, hleft, heq⟩ := htaken hp
    rw [heq, Option.bind_some, and_iff_right hp]
    exact hsecond left hleft
  · rw [hrefused hp]
    exact ⟨fun h => absurd h.1 hp, fun _ => rfl⟩

theorem Takes.mono (h : Takes scan held first p final kept) {less more : Nat}
    (hless : less ≤ held) (hmore : kept ≤ more) : Takes scan less first p final more := by
  intro count hcount
  obtain ⟨htaken, hrefused⟩ := h count (Nat.le_trans hcount hless)
  refine ⟨fun hp => ?_, hrefused⟩
  obtain ⟨left, hleft, heq⟩ := htaken hp
  exact ⟨left, Nat.le_trans hleft hmore, heq⟩

/-- With less in use before a character there is less in use behind it. -/
theorem Scan.gauge_mono {next : Scan} {c : Char} {count : Nat}
    (h : scan.gauge held c = some (next, kept)) (hcount : count ≤ held) :
    ∃ left ≤ kept, scan.gauge count c = some (next, left) := by
  obtain ⟨emitted, hread, hfree, rfl, hroom⟩ := gauge_eq_some.mp h
  have hle : (scan.mark c emitted).count count ≤ (scan.mark c emitted).count held := by
    cases scan.mark c emitted with
    | stay => exact Nat.succ_le_succ hcount
    | before => exact Nat.le_refl _
    | after => exact Nat.le_refl _
  exact ⟨_, Nat.add_le_add_right hle _, gauge_eq_some.mpr
    ⟨emitted, hread, Nat.lt_of_le_of_lt hcount hfree, rfl, by omega⟩⟩

/-- A text that is read with a given number of bytes in use is also read with fewer. -/
theorem takes_of_gaugeText (h : scan.gaugeText held first = some (final, kept)) :
    Takes scan held first True final kept := by
  intro count hcount
  refine ⟨fun _ => ?_, fun h => absurd trivial h⟩
  induction first generalizing scan held count with
  | nil =>
      cases h
      exact ⟨count, hcount, rfl⟩
  | cons c rest ih =>
      rw [Scan.gaugeText_cons, Option.bind_eq_some_iff] at h
      obtain ⟨⟨next, between⟩, hchar, hrest⟩ := h
      obtain ⟨left, hleft, hless⟩ := Scan.gauge_mono hchar hcount
      rw [Scan.gaugeText_cons, hless, Option.bind_some]
      exact ih hrest left hleft

end Takes

/-! ## Words and comments -/

section Words

variable {word : Text} {held : Nat}

theorem takes_of_eq_ite {scan final : Scan} {text : Text} {p : Prop} [Decidable p] {kept : Nat}
    (h : ∀ count ≤ held, scan.gaugeText count text = if p then some (final, kept) else none) :
    Takes scan held text p final kept := by
  intro count hcount
  rw [h count hcount]
  exact ⟨fun hp => ⟨kept, Nat.le_refl _, if_pos hp⟩, fun hp => if_neg hp⟩

/-- A word and what ends it. -/
theorem takes_word (h : starts word = true) (args : List Word) (hheld : held < confBuffer)
    {final : Scan} {tail : Text} {extra kept : Nat}
    (htail : ∀ count ≤ confBuffer,
      (Scan.inWord args word (wordVariable word)).gaugeText count tail =
        if count + extra < confBuffer then some (final, kept) else none) :
    Takes (.words args) held (word ++ tail) (size word + extra < confBuffer) final kept := by
  refine takes_of_eq_ite fun count hcount => ?_
  rw [Scan.gaugeText_append, gaugeText_word h args (Nat.lt_of_le_of_lt hcount hheld)]
  by_cases hlarge : size word ≤ confBuffer
  · rw [if_pos hlarge, Option.bind_some, htail _ hlarge]
  · rw [if_neg hlarge, if_neg (by omega), Option.bind_none]

theorem takes_statement (h : starts word = true) (args : List Word) (hheld : held < confBuffer) :
    Takes (.words args) held (word ++ [';']) (size word < confBuffer) .start 0 := by
  change Takes _ _ _ (size word + 0 < confBuffer) _ _
  refine takes_word h args hheld fun count _ => ?_
  rw [Scan.gaugeText_cons, gauge_statement (unescape_of_starts h), Nat.add_zero]
  split_ifs <;> rfl

theorem takes_blockStart (h : starts word = true) (args : List Word) (hheld : held < confBuffer) :
    Takes (.words args) held (word ++ [' ', '{']) (size word + 1 < confBuffer) .start 0 := by
  refine takes_word h args hheld fun count _ => ?_
  rw [Scan.gaugeText_cons, gauge_space (unescape_of_starts h)]
  by_cases hroom : count < confBuffer
  · rw [if_pos hroom, Option.bind_some, Scan.gaugeText_cons, gauge_block (by simp)]
    split_ifs <;> rfl
  · rw [if_neg hroom, if_neg (by omega), Option.bind_none]

/-- Words that are short, and the semicolon behind the last of them. -/
theorem takes_words {parameters : List Word}
    (h : ∀ other ∈ word :: parameters, starts other = true ∧ size other + 1 < confBuffer)
    (args : List Word) (hheld : held < confBuffer) :
    Takes (.words args) held (word ++ (parameters.flatMap (fun other => ' ' :: other) ++ [';']))
      True .start 0 := by
  obtain ⟨hword, hsize⟩ := h word List.mem_cons_self
  induction parameters generalizing word args held with
  | nil => exact (takes_statement hword args hheld).congr (iff_true_intro (by omega))
  | cons parameter rest ih =>
      have hfirst : Takes (.words args) held (word ++ [' ']) True (.words (args ++ [word]))
          (size word + 1) := by
        intro count hcount
        refine ⟨fun _ => ⟨_, Nat.le_refl _, ?_⟩, fun hfalse => absurd trivial hfalse⟩
        rw [Scan.gaugeText_append, gaugeText_word hword args (Nat.lt_of_le_of_lt hcount hheld),
          if_pos (by omega), Option.bind_some, Scan.gaugeText_cons,
          gauge_space (unescape_of_starts hword), if_pos (by omega)]
        rfl
      have hrest : ∀ other ∈ parameter :: rest, starts other = true ∧ size other + 1 < confBuffer :=
        fun other hother => h other (List.mem_cons_of_mem _ hother)
      obtain ⟨hparameter, hshort⟩ := hrest parameter List.mem_cons_self
      have hall := (hfirst.append (ih hrest (args ++ [word]) hsize hparameter hshort)).congr
        and_self_iff
      simpa using hall

/-- A comment is held up to the next character after it. -/
theorem takes_comment {line : Text} (hline : '\n' ∉ line) (hheld : held < confBuffer) :
    Takes .start held ('#' :: (line ++ "\n   #".toList)) (size line + 5 < confBuffer) .comment
      1 := by
  refine takes_of_eq_ite fun count hcount => ?_
  have hopen (kept : Nat) : Scan.start.gauge kept '#' =
      if kept < confBuffer then some (.comment, 1) else none :=
    Scan.gauge_before rfl rfl kept
  have hrest : Holds .comment (line ++ "\n   ".toList) .start :=
    (holds_comment hline).append (.cons rfl rfl (holds_blanks rfl))
  have hsplit : line ++ "\n   #".toList = (line ++ "\n   ".toList) ++ ['#'] := by simp
  have hsize : 1 + size (line ++ "\n   ".toList) = size line + 5 := by
    rw [size_append, Nat.add_left_comm]
    rfl
  rw [Scan.gaugeText_cons, hopen, if_pos (Nat.lt_of_le_of_lt hcount hheld), Option.bind_some,
    hsplit, Scan.gaugeText_append, hrest 1 (by decide), hsize]
  by_cases hroom : size line + 5 ≤ confBuffer
  · rw [if_pos hroom, Option.bind_some, Scan.gaugeText_cons, hopen]
    split_ifs <;> rfl
  · rw [if_neg hroom, Option.bind_none, if_neg (by omega)]

end Words

end NginxInterface.ConfFile
