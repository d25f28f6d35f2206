import NginxInterface.ConfFile.Directive

/-! # Access rules

The IPv4 rules of `ngx_http_access_module`: how an `allow` or `deny` directive becomes a
rule, and how the rules of a location decide about a client. Addresses are taken in host
byte order throughout.
-/

namespace NginxInterface.ConfFile

open Js

abbrev InAddr := BitVec 32

def inaddrNone : InAddr := 0xffffffff

/-- `ngx_inet_addr`, from any point of its loop. -/
def inetAddr (addr : InAddr) (octet n : Nat) : Text → InAddr
  | [] => if n = 3 then (addr <<< 8) + BitVec.ofNat 32 octet else inaddrNone
  | c :: rest =>
      if c.isDigit then
        let octet := octet * 10 + (c.toNat - '0'.toNat)
        if octet > 255 then inaddrNone else inetAddr addr octet n rest
      else if c = '.' then inetAddr ((addr <<< 8) + BitVec.ofNat 32 octet) 0 (n + 1) rest
      else inaddrNone

/-- `ngx_atoi`. The value it refuses as too large for the machine is also too large for
its caller. -/
def atoi (line : Text) : Option Nat :=
  if line ≠ [] ∧ line.all Char.isDigit then some (Nat.ofDigitChars 10 line 0) else none

structure Cidr where
  addr : InAddr
  mask : InAddr
  deriving DecidableEq

/-- `ngx_ptocidr` for an IPv4 address, with or without the length of a mask. -/
def ptocidr (text : Text) : Option Cidr :=
  let addr := inetAddr 0 0 0 (text.takeWhile (· ≠ '/'))
  if addr = inaddrNone then none
  else
    match text.dropWhile (· ≠ '/') with
    | [] => some ⟨addr, 0xffffffff⟩
    | _ :: length =>
        match atoi length with
        | none => none
        | some shift =>
            if shift > 32 then none
            else
              let mask : InAddr := if shift = 0 then 0 else 0xffffffff <<< (32 - shift)
              some ⟨addr &&& mask, mask⟩

structure AccessRule where
  mask : InAddr
  addr : InAddr
  deny : Bool
  deriving DecidableEq

/-- `ngx_http_access_rule`: the rule that a directive adds for IPv4 clients, if any. -/
def accessRule : List Word → Option AccessRule
  | [name, value] =>
      if name = "allow".toList ∨ name = "deny".toList then
        let deny := name.head? == some 'd'
        if value = "all".toList then some ⟨0, 0, deny⟩
        else (ptocidr value).map fun cidr => ⟨cidr.mask, cidr.addr, deny⟩
      else none
  | _ => none

/-- The rules of a location, in the order of its directives. -/
def accessRules (body : List Directive) : List AccessRule :=
  body.filterMap fun
    | .simple words => accessRule words
    | .block .. => none

inductive Access where
  | ok
  | forbidden
  | declined
  deriving DecidableEq

/-- `ngx_http_access_found`. -/
def accessFound (deny : Bool) : Access := if deny then .forbidden else .ok

/-- `ngx_http_access_inet`: the first rule that matches decides. -/
def accessInet (rules : List AccessRule) (addr : InAddr) : Access :=
  match rules with
  | [] => .declined
  | rule :: rest =>
      if addr &&& rule.mask = rule.addr then accessFound rule.deny else accessInet rest addr

/-- The client gets past the access phase. -/
def Admits (rules : List AccessRule) (addr : InAddr) : Prop := accessInet rules addr ≠ .forbidden

def denyAll : AccessRule := ⟨0, 0, true⟩

def allowOnly (addr : InAddr) : AccessRule := ⟨0xffffffff, addr, false⟩

theorem accessInet_denyAll (rest : List AccessRule) (addr : InAddr) :
    accessInet (denyAll :: rest) addr = .forbidden := by
  rw [accessInet, if_pos]
  · rfl
  · exact BitVec.and_zero

theorem accessInet_allowOnly (only : InAddr) (rest : List AccessRule) (addr : InAddr) :
    accessInet (allowOnly only :: rest) addr =
      if addr = only then .ok else accessInet rest addr := by
  have hmask : addr &&& (allowOnly only).mask = addr := BitVec.and_allOnes
  rw [accessInet, hmask]
  rfl

/-- Rules that begin with `deny all` admit nobody. -/
theorem not_admits_denyAll (rest : List AccessRule) (addr : InAddr) :
    ¬Admits (denyAll :: rest) addr := fun hadmits => hadmits (accessInet_denyAll rest addr)

/-- An `allow` before `deny all` admits its address and no other. -/
theorem admits_allowOnly_denyAll (only addr : InAddr) :
    Admits [allowOnly only, denyAll] addr ↔ addr = only := by
  rw [Admits, accessInet_allowOnly, accessInet_denyAll]
  by_cases hsame : addr = only <;> simp [hsame]

end NginxInterface.ConfFile
