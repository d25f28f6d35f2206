import Mathlib.Data.List.Basic

/-! # JavaScript values

The values that reach the routing table come from JSON messages: `null`,
booleans, numbers, strings, arrays and objects, and `undefined` where a field is
missing. This module gives them the four conversions the program relies on:
truthiness, conversion to text, loose equality and the escaping of the template
engine.

Objects are compared by identity. Two messages never share an object, so an
object is loosely equal to no other object.
-/

namespace NginxInterface.Js

abbrev Text := List Char

/-- Characters of the decimal rendering of a number: digits, sign, point,
exponent, and the letters of `Infinity`. -/
def numeralChar (c : Char) : Bool :=
  c.isAlphanum || c == '-' || c == '+' || c == '.'

/-- What the program uses of the number type. Elements are numbers up to `==`,
so that the two zeros are one element and `NaN`, which JSON cannot express, is
none; `ofText` answers `none` where conversion from a string gives `NaN`. -/
class Number (N : Type) where
  decEq : DecidableEq N
  zero : N
  one : N
  toText : N → Text
  ofText : Text → Option N
  zero_ne_one : zero ≠ one
  toText_ne_nil : ∀ n, toText n ≠ []
  toText_numeral : ∀ n, ∀ c ∈ toText n, numeralChar c = true

instance {N : Type} [Number N] : DecidableEq N := Number.decEq

/-- A JavaScript value as read from a JSON message. -/
inductive Value (N : Type) where
  | undefined
  | null
  | bool (b : Bool)
  | num (n : N)
  | str (s : String)
  | arr (items : List (Value N))
  | obj (fields : List (String × Value N))

/-- Thrown values: the built-in `TypeError`, an `Error` with the program's own
message, and a failure of the operating system. -/
inductive Fault where
  | typeError
  | error (message : Text)
  | system
  deriving DecidableEq

namespace Value

variable {N : Type} [Number N]

def truthy : Value N → Bool
  | .undefined => false
  | .null => false
  | .bool b => b
  | .num n => n ≠ Number.zero
  | .str s => s ≠ ""
  | .arr _ => true
  | .obj _ => true

/-- `value || fallback`. -/
def or (value fallback : Value N) : Value N :=
  if value.truthy then value else fallback

/-- Neither an array nor an object. -/
def primitive : Value N → Bool
  | .arr _ => false
  | .obj _ => false
  | _ => true

/-- `value == undefined`. -/
def nullish : Value N → Bool
  | .undefined => true
  | .null => true
  | _ => false

-- An own property named `toString` hides the inherited method and cannot be a
-- function, so that the object has no primitive value left.
mutual
/-- `String(value)`, also the text of `value` in a template literal and in a
concatenation with a string. -/
def toText : Value N → Except Fault Text
  | .undefined => .ok "undefined".toList
  | .null => .ok "null".toList
  | .bool true => .ok "true".toList
  | .bool false => .ok "false".toList
  | .num n => .ok (Number.toText n)
  | .str s => .ok s.toList
  | .arr items => joinText items
  | .obj fields =>
      if fields.any fun field => field.1 == "toString" then .error .typeError
      else .ok "[object Object]".toList

/-- `items.join(',')`, where missing items count as empty. -/
def joinText : List (Value N) → Except Fault Text
  | [] => .ok []
  | item :: rest => do
      let head ← if item.nullish then .ok [] else toText item
      let tail ← joinText rest
      return if rest.isEmpty then head else head ++ ',' :: tail
end

/-- Whether a value converts to text without throwing. -/
def printable (value : Value N) : Bool :=
  match value.toText with
  | .ok _ => true
  | .error _ => false

/-- The operands that loose equality distinguishes once booleans are numbers:
numbers, strings, and references with the outcome of their conversion. -/
inductive Operand (N : Type) where
  | num (n : N)
  | str (s : Text)
  | ref (text : Except Fault Text)

def numberOfBool (b : Bool) : N := if b then Number.one else Number.zero

def operand (value : Value N) : Operand N :=
  match value with
  | .bool b => .num (numberOfBool b)
  | .num n => .num n
  | .str s => .str s.toList
  | value => .ref value.toText

/-- A number against a string: the string is converted to a number. -/
def numberEqText (n : N) (text : Text) : Bool := Number.ofText text = some n

def operandEq : Operand N → Operand N → Except Fault Bool
  | .num left, .num right => .ok (left = right)
  | .num left, .str right => .ok (numberEqText left right)
  | .str left, .num right => .ok (numberEqText right left)
  | .str left, .str right => .ok (left = right)
  | .num left, .ref right => right.map (numberEqText left)
  | .ref left, .num right => left.map (numberEqText right)
  | .str left, .ref right => right.map fun text => left = text
  | .ref left, .str right => left.map fun text => text = right
  | .ref _, .ref _ => .ok false

/-- `left == right`. -/
def looseEq (left right : Value N) : Except Fault Bool :=
  if left.nullish then .ok right.nullish
  else if right.nullish then .ok false
  else operandEq left.operand right.operand

/-- What `value` has under a name that no built-in prototype has. -/
def property (value : Value N) (name : String) : Value N :=
  match value with
  | .obj fields => (fields.lookup name).getD .undefined
  | _ => .undefined

/-- `value.name`. Only `undefined` and `null` cannot be asked. -/
def field (value : Value N) (name : String) : Except Fault (Value N) :=
  if value.nullish then .error .typeError else .ok (value.property name)

/-- The string that stands for the value in `object[value]`. -/
def propertyKey (value : Value N) : Except Fault String := value.toText.map String.ofList

/-! ## Escaping -/

/-- The template engine's `encode_char`, for use in HTML. -/
def encodeChar : Char → Text
  | '&' => "&amp;".toList
  | '<' => "&lt;".toList
  | '>' => "&gt;".toList
  | '"' => "&#34;".toList
  | '\'' => "&#39;".toList
  | c => [c]

def escapeText (text : Text) : Text := text.flatMap encodeChar

/-- The template engine's `escapeXML`: what `<%= value %>` appends. -/
def escapeXML (value : Value N) : Except Fault Text :=
  if value.nullish then .ok []
  else value.toText.map escapeText

/-! ## Conversions that succeed -/

theorem printable_iff (value : Value N) :
    value.printable = true ↔ ∃ text, value.toText = .ok text := by
  unfold printable
  cases value.toText with
  | ok text => simp
  | error fault => simp

@[simp] theorem printable_str (s : String) : (Value.str s : Value N).printable = true := rfl

@[simp] theorem printable_num (n : N) : (Value.num n).printable = true := rfl

theorem printable_of_falsy {value : Value N} (h : value.truthy = false) :
    value.printable = true := by
  cases value with
  | undefined => rfl
  | null => rfl
  | bool b => cases b <;> rfl
  | num n => rfl
  | str s => rfl
  | arr items => cases h
  | obj fields => cases h

theorem printable_or {value fallback : Value N} (hvalue : value.printable = true)
    (hfallback : fallback.printable = true) : (value.or fallback).printable = true := by
  unfold Value.or
  split
  · exact hvalue
  · exact hfallback

theorem escapeXML_of_printable {value : Value N} (h : value.printable = true) :
    ∃ text, value.escapeXML = .ok text := by
  obtain ⟨text, htext⟩ := value.printable_iff.mp h
  unfold escapeXML
  split
  · exact ⟨[], rfl⟩
  · exact ⟨escapeText text, by rw [htext]; rfl⟩

/-- Loose equality can only throw while converting one of its operands. -/
theorem looseEq_of_printable {left right : Value N} (hleft : left.printable = true)
    (hright : right.printable = true) : ∃ result, left.looseEq right = .ok result := by
  obtain ⟨leftText, hleft⟩ := left.printable_iff.mp hleft
  obtain ⟨rightText, hright⟩ := right.printable_iff.mp hright
  unfold looseEq
  split
  · exact ⟨_, rfl⟩
  · split
    · exact ⟨_, rfl⟩
    · cases left <;> cases right <;>
        simp [operand, operandEq, hleft, hright, Except.map]

omit [Number N] in
theorem field_of_not_nullish {value : Value N} (h : value.nullish = false) (name : String) :
    value.field name = .ok (value.property name) := by
  simp [field, h]

omit [Number N] in
theorem field_of_nullish {value : Value N} (h : value.nullish = true) (name : String) :
    value.field name = .error .typeError := by
  simp [field, h]

@[simp] theorem looseEq_num (left right : N) :
    (Value.num left).looseEq (Value.num right) = .ok (decide (left = right)) := rfl

@[simp] theorem looseEq_bool (left right : Bool) :
    (Value.bool left : Value N).looseEq (.bool right) = .ok (decide (left = right)) := by
  cases left <;> cases right <;>
    simp [looseEq, nullish, operand, operandEq, numberOfBool, Number.zero_ne_one,
      Number.zero_ne_one.symm]

@[simp] theorem looseEq_str (left right : String) :
    (Value.str left : Value N).looseEq (Value.str right) = .ok (decide (left = right)) := by
  simp [looseEq, nullish, operand, operandEq, String.toList_inj]

/-! ## Characters the escaping leaves alone -/

/-- The five characters with a meaning in HTML. -/
def htmlSpecial (c : Char) : Bool :=
  c == '&' || c == '<' || c == '>' || c == '"' || c == '\''

theorem encodeChar_of_not_special {c : Char} (h : htmlSpecial c = false) :
    encodeChar c = [c] := by
  simp only [htmlSpecial, Bool.or_eq_false_iff, beq_eq_false_iff_ne] at h
  unfold encodeChar
  split <;> simp_all

theorem escapeText_of_not_special {text : Text} (h : ∀ c ∈ text, htmlSpecial c = false) :
    escapeText text = text := by
  induction text with
  | nil => rfl
  | cons c rest ih =>
      have htail := ih fun other hother => h other (List.mem_cons_of_mem _ hother)
      have hhead := encodeChar_of_not_special (h c List.mem_cons_self)
      simp only [escapeText, List.flatMap_cons, hhead] at htail ⊢
      rw [htail]
      rfl

theorem htmlSpecial_of_numeral {c : Char} (h : numeralChar c = true) :
    htmlSpecial c = false := by
  by_contra hspecial
  rw [Bool.not_eq_false] at hspecial
  simp only [htmlSpecial, Bool.or_eq_true, beq_iff_eq] at hspecial
  rcases hspecial with (((rfl | rfl) | rfl) | rfl) | rfl <;> exact absurd h (by decide)

/-- The rendering of a number needs no escaping. -/
theorem escapeText_number (n : N) : escapeText (Number.toText n) = Number.toText n :=
  escapeText_of_not_special fun c hc => htmlSpecial_of_numeral (Number.toText_numeral n c hc)

end Value

/-! ## Integers

Whole numbers are a number type by themselves; the model runs on them. -/

def integerToText : Int → Text
  | .ofNat n => Nat.toDigits 10 n
  | .negSucc n => '-' :: Nat.toDigits 10 (n + 1)

/-- Conversion of a string of decimal digits, with surrounding blanks and a sign;
the empty string is zero. -/
def integerOfText (text : Text) : Option Int :=
  let blank := fun c => c = ' ' || c = '\t' || c = '\n' || c = '\r'
  let digits := fun (ds : Text) =>
    if ds ≠ [] ∧ ds.all Char.isDigit then
      some (ds.foldl (fun n c => 10 * n + (c.toNat - '0'.toNat)) 0)
    else none
  match ((text.dropWhile blank).reverse.dropWhile blank).reverse with
  | [] => some 0
  | '-' :: ds => (digits ds).map fun n => -(n : Int)
  | '+' :: ds => (digits ds).map Int.ofNat
  | ds => (digits ds).map Int.ofNat

theorem numeralChar_of_digit {c : Char} (h : c.isDigit = true) : numeralChar c = true := by
  simp [numeralChar, Char.isAlphanum, h]

theorem integerToText_numeral (n : Int) : ∀ c ∈ integerToText n, numeralChar c = true := by
  intro c hc
  cases n with
  | ofNat n => exact numeralChar_of_digit (Nat.isDigit_of_mem_toDigits (by decide) (by decide) hc)
  | negSucc n =>
      rcases List.mem_cons.mp hc with rfl | hc
      · rfl
      · exact numeralChar_of_digit (Nat.isDigit_of_mem_toDigits (by decide) (by decide) hc)

theorem integerToText_ne_nil (n : Int) : integerToText n ≠ [] := by
  cases n with
  | ofNat n => exact Nat.toDigits_ne_nil
  | negSucc n => exact List.cons_ne_nil _ _

instance : Number Int where
  decEq := inferInstance
  zero := 0
  one := 1
  toText := integerToText
  ofText := integerOfText
  zero_ne_one := by decide
  toText_ne_nil := integerToText_ne_nil
  toText_numeral := integerToText_numeral

example : (Value.num (80 : Int)).looseEq (.str " 080") = .ok true := by decide

end NginxInterface.Js
