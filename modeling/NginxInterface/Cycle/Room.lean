import Mathlib.Data.Nat.Digits.Defs
import NginxInterface.Cycle.Apps
import NginxInterface.Template.Room

/-! # Names that fit

The file of usable applications fits into the buffer of the tokenizer if their names do.
-/

namespace NginxInterface

open Js Ejs ConfFile Upstream Foundation

/-- Numbers that are printed with digits only are printed as decimal numerals, without leading
zeros. -/
class Js.Number.Decimal (N : Type) [Number N] : Prop where
  toText_digits : ∀ n : N, (Number.toText n).all Char.isDigit = true →
    ∃ k, Number.toText n = Nat.toDigits 10 k

instance : Number.Decimal Int where
  toText_digits n h := by
    cases n with
    | ofNat n => exact ⟨n, rfl⟩
    | negSucc n => cases h

variable {N : Type} [Number N]

/-! ## Sizes -/

theorem size_eq_length {text : Text} (h : ∀ c ∈ text, c.utf8Size = 1) :
    size text = text.length := by
  induction text with
  | nil => rfl
  | cons c rest ih =>
      rw [size, h c List.mem_cons_self,
        ih fun other hother => h other (List.mem_cons_of_mem _ hother),
        List.length_cons, Nat.add_comm]

theorem utf8Size_of_ordinary {c : Char} (h : ordinary c = true) : c.utf8Size = 1 := by
  have hclass : c.isAlphanum = (decide (c.val ≥ 'A'.val ∧ c.val ≤ 'Z'.val) ||
      (c.val ≥ 'a'.val && c.val ≤ 'z'.val) || (c.val ≥ '0'.val && c.val ≤ '9'.val)) := rfl
  have hsmall : c.val ≤ 127 := by
    simp only [ordinary, numeralChar, hclass, Bool.or_eq_true, Bool.and_eq_true,
      decide_eq_true_eq, beq_iff_eq] at h
    rcases h with (((((h | h) | h) | h) | h) | h) | h
    all_goals first | exact UInt32.le_trans h.2 (by decide) | (subst h; decide)
  unfold Char.utf8Size
  simp [hsmall]

theorem Name.size_eq {name : String} (h : Name name) : size name.toList = name.length := by
  rw [size_eq_length fun c hc => utf8Size_of_ordinary (h.ordinary c hc), String.length_toList]

/-- An integer of nginx has at most 19 digits. -/
theorem size_number [Number.Decimal N] {n : N} {k : Nat}
    (h : boundedAtoi (Number.toText n) = some k) : size (Number.toText n) ≤ 19 := by
  obtain ⟨hatoi, hlarge⟩ := boundedAtoi_eq_some.mp h
  rw [size_eq_length fun c hc => utf8Size_of_ordinary (number_ordinary n c hc)]
  unfold atoi at hatoi
  split at hatoi
  next hdigits =>
    obtain ⟨m, hm⟩ := Number.Decimal.toText_digits n hdigits.2
    rw [hm, Nat.ofDigitChars_toDigits (by decide) (by decide), Option.some.injEq] at hatoi
    rw [hm]
    refine Nat.toDigits_length 10 m 19 (by decide) (Nat.lt_of_le_of_lt (hatoi ▸ hlarge) ?_)
    decide
  · cases hatoi

theorem size_of_numberOf [Number.Decimal N] {value : Value N} (h : ∃ n, value = .num n)
    (hnumber : numberOf value ≠ 0) : size (valueWord value) ≤ 19 := by
  obtain ⟨n, rfl⟩ := h
  have hword : valueWord (.num n) = Number.toText n := rfl
  rw [numberOf, hword] at hnumber
  cases hatoi : boundedAtoi (Number.toText n) with
  | none =>
      rw [hatoi] at hnumber
      exact absurd rfl hnumber
  | some k => exact size_number hatoi

theorem Js.Value.Natural.size [Number.Decimal N] {value : Value N} (h : value.Natural)
    (hrange : PortRange (numberOf value)) : ConfFile.size (valueWord value) ≤ 19 := by
  obtain ⟨n, hn, -⟩ := h
  exact size_of_numberOf ⟨n, hn⟩ (Nat.one_le_iff_ne_zero.mp hrange.1)

theorem PortRange.ne_zero {port : Nat} (h : PortRange port) : port ≠ 0 :=
  Nat.one_le_iff_ne_zero.mp h.1

variable [Number.Decimal N]

theorem Instance.Documented.short {item : Instance N} (h : item.Documented)
    (husable : item.Usable) : item.Short where
  port := Nat.lt_of_le_of_lt (size_of_numberOf h.port husable.port.ne_zero) (by decide)
  weight := by
    rcases h.weight with hnone | ⟨n, hne, hn⟩
    · have hword : valueWord (.undefined : Value N) = "undefined".toList := rfl
      rw [hnone, hword]
      decide +kernel
    · have htruthy : item.weight.truthy = true := by simp [hn, Value.truthy, hne]
      have hnumber := husable.weight
      rw [Instance.weightNumber, if_pos htruthy] at hnumber
      exact Nat.lt_of_le_of_lt (size_of_numberOf ⟨n, hn⟩ hnumber) (by decide)

/-! ## Applications -/

/-- The longest names that fit. -/
def nameLimit : Mode → Nat
  | .http => 4088
  | .stream => 4057

section App

variable {mode : Mode} {appKey : String} {entry : Entry N}

theorem AppUsable.port_size (h : AppUsable mode (appKey, entry)) (hplain : entry.Plain) :
    size (valueWord entry.port) < confBuffer := by
  exact Nat.lt_of_le_of_lt (hplain.port.size h.port) (by decide)

theorem size_method {method : Word} (h : method ∈ methodNames mode) : size method < confBuffer := by
  revert method
  cases mode <;> decide +kernel

omit [Number.Decimal N] in
theorem Entry.Plain.streamBalance_eq (h : entry.Plain) : streamBalance entry = .ok [] ∨
    streamBalance entry = .ok (Value.escapeText (entry.method .stream ++ [';'])) ∧
      PlainWord (entry.method .stream) := by
  rcases h.balance with hnull | ⟨method, hmethod, hname⟩
  · have hword : entry.method .stream = "null".toList := by rw [Entry.method, hnull]; rfl
    rw [hword, streamBalance, hnull]
    exact Or.inr ⟨rfl, by decide⟩
  · have hword : entry.method .stream = method.toList := by rw [Entry.method, hmethod]; rfl
    rw [hword]
    by_cases hdefault : method = "round_robin"
    · exact Or.inl (by
        simp [streamBalance, hmethod, hdefault, bind, Except.bind, pure, Except.pure])
    · exact Or.inr ⟨by
        simp [streamBalance, hmethod, hdefault, Value.toText, bind, Except.bind, pure,
          Except.pure], hname.plainWord⟩

omit [Number.Decimal N] in
theorem Entry.Plain.httpBalance_eq (h : entry.Plain) : httpBalance entry = .ok [] ∨
    httpBalance entry = .ok (Value.escapeText (entry.method .http ++ [';'])) ∧
      PlainWord (entry.method .http) := by
  rcases h.balance with hnull | ⟨method, hmethod, hname⟩
  · exact Or.inl (by
      rw [httpBalance, hnull]
      rfl)
  · have htruthy : entry.balance.truthy = true := by simp [hmethod, Value.truthy, hname.1]
    have hword : entry.method .http = method.toList := by
      rw [Entry.method, htruthy, hmethod]
      rfl
    rw [hword]
    by_cases hdefault : method = "round_robin"
    · exact Or.inl (by
        simp [httpBalance, hmethod, hdefault, bind, Except.bind, pure, Except.pure])
    · exact Or.inr ⟨by
        simp [httpBalance, hmethod, hdefault, hname.1, Value.truthy, Value.toText, bind,
          Except.bind, pure, Except.pure], hname.plainWord⟩

theorem AppUsable.servers_fill (h : AppUsable mode (appKey, entry)) (hplain : entry.Plain)
    {body : Instance N → Except Fault Text}
    (hbody : ∀ item : Instance N, item.Worded → item.Short →
      Fills (body item) .start 1000 True .start 1) :
    Fills (eachInstance body entry.instances) .start 30 True .start 30 := by
  obtain ⟨items, hitems, hdocumented⟩ := hplain.instances
  refine eachInstance_fills hitems fun item hitem => ?_
  have husable := h.instances item (by rw [hitems]; exact hitem)
  exact hbody item (hdocumented item hitem).worded ((hdocumented item hitem).short husable)

omit [Number N] [Number.Decimal N] in
theorem balance_fills_of_method {part : Except Fault Text} {method : Word}
    (hmethod : method ∈ methodNames mode)
    (h : part = .ok [] ∨ part = .ok (Value.escapeText (method ++ [';'])) ∧ PlainWord method) :
    Fills part .start 20 True .start 20 :=
  balance_fills (h.imp_right fun heq => ⟨method, heq.1, heq.2, size_method hmethod⟩)

theorem streamApp_room (hname : Name appKey) (hplain : entry.Plain)
    (husable : AppUsable .stream (appKey, entry)) :
    Fills (streamApp appKey entry) .start 900 (appKey.length ≤ nameLimit .stream) .start 10 := by
  have hword := hname.plainWord
  have hline : '\n' ∉ appKey.toList := fun hmem => absurd (hname.ordinary '\n' hmem) (by decide)
  have hfills := streamApp_fills (hword.appKeyText ▸ hword.1) (hword.appKeyText ▸ hline)
    hplain.worded.port.1 hplain.worded.port.2 (husable.port_size hplain)
    (balance_fills_of_method husable.method hplain.streamBalance_eq)
    (husable.servers_fill hplain fun _ => streamServer_fills)
  rw [hword.appKeyText, hname.size_eq] at hfills
  exact hfills.congr (show appKey.length + 38 < 4096 ↔ appKey.length ≤ 4057 by omega)

theorem httpApp_room (hname : Name appKey) (hplain : entry.Plain)
    (husable : AppUsable .http (appKey, entry)) :
    Fills (httpApp appKey entry) .start 900 (appKey.length ≤ nameLimit .http) .start 10 := by
  have hword := hname.plainWord
  have hkey : starts (appKeyText appKey) = true := hword.appKeyText ▸ hword.1
  have hserver : serverNameValue entry = .str "_" := by
    rw [serverNameValue, hplain.serverName]
    rfl
  have hlisten : httpListen appKey entry = httpListenPlain appKey entry := by
    rw [httpListen, husable.ssl rfl]
  have hunderscore : (serverNameValue entry).escapeXML = .ok ['_'] := by
    rw [hserver]
    rfl
  have hfills := httpApp_fills hkey hunderscore (by decide) (by decide +kernel)
    (hlisten ▸ httpListenPlain_fills hkey hplain.worded.port.1 hplain.worded.port.2
      (husable.port_size hplain))
    (balance_fills_of_method husable.method hplain.httpBalance_eq)
    (husable.servers_fill hplain fun _ => httpServer_fills)
  rw [hword.appKeyText, hname.size_eq] at hfills
  exact hfills.congr (show appKey.length + 7 < 4096 ↔ appKey.length ≤ 4088 by omega)

end App

end NginxInterface
