import Mathlib.Data.List.TakeWhile
import NginxInterface.ConfFile.Access

/-! # Addresses and ports

`ngx_atoi` with its bound, and `ngx_parse_inet_url`, which reads the addresses of
`listen`, `server` and `proxy_pass`. What starts with `unix:` or `[` goes to other functions,
and no rendered file holds such an address.
-/

namespace NginxInterface.ConfFile

open Js

structure Sockaddr where
  addr : InAddr
  port : Nat
  deriving DecidableEq

/-! ## Integers -/

/-- `NGX_MAX_INT_T_VALUE` where integers have 64 bits. -/
def maxIntValue : Nat := 9223372036854775807

/-- The loop of `ngx_atoi` with its variable `value`. -/
def atoiLoop (value : Nat) : Text → Option Nat
  | [] => some value
  | c :: rest =>
      if c.isDigit then
        let digit := c.toNat - '0'.toNat
        let cutoff := maxIntValue / 10
        let cutlim := maxIntValue % 10
        if value ≥ cutoff ∧ (value > cutoff ∨ digit > cutlim) then none
        else atoiLoop (value * 10 + digit) rest
      else none

/-- `ngx_atoi`, which refuses what does not fit into an integer. -/
def boundedAtoi (line : Text) : Option Nat := if line = [] then none else atoiLoop 0 line

theorem le_ofDigitChars (digits : Text) (value : Nat) :
    value ≤ Nat.ofDigitChars 10 digits value := by
  induction digits generalizing value with
  | nil => exact Nat.le_refl _
  | cons c rest ih =>
      rw [Nat.ofDigitChars_cons]
      exact Nat.le_trans (by omega) (ih _)

theorem atoiLoop_eq (line : Text) {value : Nat} (hvalue : value ≤ maxIntValue) :
    atoiLoop value line =
      if line.all Char.isDigit ∧ Nat.ofDigitChars 10 line value ≤ maxIntValue then
        some (Nat.ofDigitChars 10 line value)
      else none := by
  induction line generalizing value with
  | nil => simp [atoiLoop, Nat.ofDigitChars_nil, hvalue]
  | cons c rest ih =>
      rw [atoiLoop, Nat.ofDigitChars_cons, Nat.mul_comm 10 value]
      cases hdigit : c.isDigit with
      | false => simp [hdigit]
      | true =>
          have hnine : c.toNat - '0'.toNat ≤ 9 := by
            simp only [Char.isDigit, Bool.and_eq_true, decide_eq_true_eq] at hdigit
            have hle : c.toNat ≤ '9'.toNat := hdigit.2
            have hconst : '9'.toNat = '0'.toNat + 9 := rfl
            omega
          -- what the comparison with the two constants says
          have hover : (value ≥ maxIntValue / 10 ∧ (value > maxIntValue / 10 ∨
              c.toNat - '0'.toNat > maxIntValue % 10)) ↔
              maxIntValue < value * 10 + (c.toNat - '0'.toNat) := by
            unfold maxIntValue
            omega
          have hgrows := le_ofDigitChars rest (value * 10 + (c.toNat - '0'.toNat))
          simp only [if_true, hover, List.all_cons, hdigit, Bool.true_and]
          split
          next hlarge => rw [if_neg fun hsmall => absurd hsmall.2 (by omega)]
          next hsmall => exact ih (by omega)

theorem boundedAtoi_eq_some {line : Text} {n : Nat} :
    boundedAtoi line = some n ↔ atoi line = some n ∧ n ≤ maxIntValue := by
  unfold boundedAtoi atoi
  by_cases hempty : line = []
  · simp [hempty]
  · rw [if_neg hempty, atoiLoop_eq line (Nat.zero_le _)]
    by_cases hdigits : line.all Char.isDigit = true
    · simp only [hdigits, true_and, hempty, ne_eq, not_false_eq_true, if_true, Option.some.injEq]
      by_cases hsmall : Nat.ofDigitChars 10 line 0 ≤ maxIntValue
      · simp only [hsmall, if_true, Option.some.injEq]
        constructor
        · rintro rfl
          exact ⟨rfl, hsmall⟩
        · exact And.left
      · simp only [hsmall, if_false]
        constructor
        · exact fun h => by cases h
        · rintro ⟨rfl, hle⟩
          exact absurd hle hsmall
    · simp [hdigits]

/-! ## Addresses -/

/-- What the caller asks of `ngx_parse_url`. -/
structure UrlOptions where
  defaultPort : Nat := 0
  listen : Bool := false
  uriPart : Bool := false
  noResolve : Bool := false

/-- `ngx_url_t`. -/
structure Url where
  url : Word
  host : Word := []
  uri : Word := []
  port : Nat
  noPort : Bool := false
  wildcard : Bool := false
  addr : InAddr := 0
  addrs : List Sockaddr := []
  deriving DecidableEq

/-- How names become addresses, for `ngx_inet_resolve_host`. -/
abbrev Resolver := Word → List InAddr

/-- The part of `ngx_parse_inet_url` that reads the host. -/
def parseHost (resolve : Resolver) (options : UrlOptions) (u : Url) : Except String Url :=
  if u.host = [] then .error "no host"
  else if options.listen ∧ u.host = ['*'] then .ok { u with wildcard := true }
  else
    let addr := inetAddr 0 0 0 u.host
    if addr ≠ inaddrNone then
      .ok { u with addr, wildcard := addr = 0, addrs := [⟨addr, u.port⟩] }
    else if options.noResolve then .ok u
    else
      match resolve u.host with
      | [] => .error "host not found"
      | first :: others =>
          .ok { u with
            addr := first
            wildcard := first = 0
            addrs := (first :: others).map fun addr => ⟨addr, u.port⟩ }

/-- A character before the uri and the arguments. -/
def inAuthority (c : Char) : Bool := c ≠ '/' && c ≠ '?'

/-- `ngx_parse_inet_url`. -/
def parseInetUrl (resolve : Resolver) (options : UrlOptions) (url : Word) : Except String Url :=
  let uri := url.dropWhile inAuthority
  if uri ≠ [] ∧ (options.listen ∨ ¬options.uriPart) then .error "invalid host"
  else
    let authority := url.takeWhile inAuthority
    match authority.dropWhile (· ≠ ':') with
    | _ :: port =>
        match boundedAtoi port with
        | some n =>
            if 1 ≤ n ∧ n ≤ 65535 then
              parseHost resolve options
                { url, uri, host := authority.takeWhile (· ≠ ':'), port := n }
            else .error "invalid port"
        | none => .error "invalid port"
    | [] =>
        -- the value may be a port only
        match if uri = [] ∧ options.listen then boundedAtoi authority else none with
        | some n =>
            if 1 ≤ n ∧ n ≤ 65535 then .ok { url, port := n, wildcard := true }
            else .error "invalid port"
        | none =>
            parseHost resolve options
              { url, uri, host := authority, port := options.defaultPort, noPort := true }

/-- The text is that of a port number. -/
def portNumber (text : Text) : Option Nat :=
  match boundedAtoi text with
  | some n => if 1 ≤ n ∧ n ≤ 65535 then some n else none
  | none => none

theorem takeWhile_inAuthority {text : Text} (h : text.all inAuthority = true) :
    text.takeWhile inAuthority = text ∧ text.dropWhile inAuthority = [] := by
  rw [List.all_eq_true] at h
  exact ⟨List.takeWhile_eq_self_iff.mpr h, List.dropWhile_eq_nil_iff.mpr h⟩

/-- An address with a port. -/
theorem parseInetUrl_port (resolve : Resolver) (options : UrlOptions) {host port : Text}
    (hhost : host.all inAuthority = true) (hcolon : ':' ∉ host)
    (hport : port.all inAuthority = true) :
    parseInetUrl resolve options (host ++ ':' :: port) =
      match portNumber port with
      | some n => parseHost resolve options { url := host ++ ':' :: port, host, port := n }
      | none => .error "invalid port" := by
  have hall : (host ++ ':' :: port).all inAuthority = true := by
    rw [List.all_append, hhost, List.all_cons, hport]
    rfl
  obtain ⟨htake, hdrop⟩ := takeWhile_inAuthority hall
  have hother : ∀ c ∈ host, decide (c ≠ ':') = true := by
    intro c hc
    rw [decide_eq_true_eq]
    rintro rfl
    exact hcolon hc
  have hbefore : (host ++ ':' :: port).takeWhile (fun c => decide (c ≠ ':')) = host := by
    rw [List.takeWhile_append_of_pos hother]
    simp
  have hafter : (host ++ ':' :: port).dropWhile (fun c => decide (c ≠ ':')) = ':' :: port := by
    rw [List.dropWhile_append_of_pos hother]
    simp
  unfold parseInetUrl portNumber
  simp only [htake, hdrop, hbefore, hafter, ne_eq, not_true_eq_false, false_and, if_false]
  cases boundedAtoi port with
  | none => rfl
  | some n => by_cases hrange : 1 ≤ n ∧ n ≤ 65535 <;> simp [hrange]

theorem parseHost_of_addr (resolve : Resolver) (options : UrlOptions) {u : Url}
    (hhost : u.host ≠ []) (hstar : u.host ≠ ['*']) (haddr : inetAddr 0 0 0 u.host ≠ inaddrNone) :
    parseHost resolve options u =
      .ok { u with
        addr := inetAddr 0 0 0 u.host
        wildcard := inetAddr 0 0 0 u.host = 0
        addrs := [⟨inetAddr 0 0 0 u.host, u.port⟩] } := by
  unfold parseHost
  rw [if_neg hhost, if_neg fun h => hstar h.2]
  exact if_pos haddr

/-- A port of the local host. -/
theorem parseInetUrl_localhost (resolve : Resolver) (options : UrlOptions) {port : Text}
    (hport : port.all inAuthority = true) :
    parseInetUrl resolve options ("127.0.0.1:".toList ++ port) =
      match portNumber port with
      | some n => .ok
          { url := "127.0.0.1:".toList ++ port
            host := "127.0.0.1".toList
            port := n
            addr := 0x7f000001
            addrs := [⟨0x7f000001, n⟩] }
      | none => .error "invalid port" := by
  have hsplit : "127.0.0.1:".toList ++ port = "127.0.0.1".toList ++ ':' :: port := rfl
  have haddr : inetAddr 0 0 0 "127.0.0.1".toList = 0x7f000001 := by decide
  rw [hsplit, parseInetUrl_port resolve options (by decide) (by decide) hport]
  cases portNumber port with
  | none => rfl
  | some n =>
      dsimp only
      have hhost : "127.0.0.1".toList ≠ [] := by decide
      have hstar : "127.0.0.1".toList ≠ ['*'] := by decide
      have hnone : inetAddr 0 0 0 "127.0.0.1".toList ≠ inaddrNone := by
        rw [haddr]
        decide
      rw [parseHost_of_addr resolve options hhost hstar hnone]
      simp only [haddr]
      rfl

/-- A port to listen on, at any address. -/
theorem parseInetUrl_listen (resolve : Resolver) {options : UrlOptions}
    (hlisten : options.listen = true) {port : Text} {n : Nat} (hport : boundedAtoi port = some n) :
    parseInetUrl resolve options port =
      match portNumber port with
      | some n => .ok { url := port, port := n, wildcard := true }
      | none => .error "invalid port" := by
  have hdigits : ∀ c ∈ port, c.isDigit = true := by
    obtain ⟨hatoi, -⟩ := boundedAtoi_eq_some.mp hport
    unfold atoi at hatoi
    split at hatoi
    next h => exact List.all_eq_true.mp h.2
    next => cases hatoi
  have hauthority : port.all inAuthority = true := by
    refine List.all_eq_true.mpr fun c hc => ?_
    have hdigit := hdigits c hc
    unfold inAuthority
    rw [Bool.and_eq_true, decide_eq_true_eq, decide_eq_true_eq]
    constructor
    · rintro rfl
      cases hdigit
    · rintro rfl
      cases hdigit
  have hcolon : port.dropWhile (fun c => decide (c ≠ ':')) = [] := by
    refine List.dropWhile_eq_nil_iff.mpr fun c hc => ?_
    have hdigit := hdigits c hc
    rw [decide_eq_true_eq]
    rintro rfl
    cases hdigit
  obtain ⟨htake, hdrop⟩ := takeWhile_inAuthority hauthority
  unfold parseInetUrl portNumber
  simp only [htake, hdrop, hcolon, hport, hlisten, and_true, ne_eq, not_true_eq_false, false_and,
    if_false, if_true]
  by_cases hrange : 1 ≤ n ∧ n ≤ 65535 <;> simp [hrange]

/-- The name of an upstream, which is not looked up. -/
theorem parseInetUrl_name (resolve : Resolver) {options : UrlOptions}
    (hlisten : options.listen = false) (hresolve : options.noResolve = true) {name : Text}
    (hname : name ≠ []) (hauthority : name.all inAuthority = true) (hcolon : ':' ∉ name) :
    ∃ u, parseInetUrl resolve options name = .ok u ∧ u.host = name ∧ u.noPort = true ∧
      u.port = options.defaultPort := by
  obtain ⟨htake, hdrop⟩ := takeWhile_inAuthority hauthority
  have hafter : name.dropWhile (fun c => decide (c ≠ ':')) = [] := by
    refine List.dropWhile_eq_nil_iff.mpr fun c hc => ?_
    rw [decide_eq_true_eq]
    rintro rfl
    exact hcolon hc
  unfold parseInetUrl
  simp only [htake, hdrop, hafter, hlisten, ne_eq, not_true_eq_false, false_and, if_false,
    Bool.false_eq_true, and_false]
  unfold parseHost
  rw [if_neg hname, if_neg (by simp [hlisten])]
  by_cases haddr : inetAddr 0 0 0 name = inaddrNone
  · exact ⟨_, by rw [if_neg (not_not_intro haddr), if_pos hresolve], rfl, rfl, rfl⟩
  · exact ⟨_, if_pos haddr, rfl, rfl, rfl⟩

end NginxInterface.ConfFile
