import NginxInterface.ConfFile.Commands
import NginxInterface.Routing.Config
import NginxInterface.Upstream.RoundRobin

/-! # Upstream blocks

How an `upstream` block becomes the servers of an upstream, from `ngx_http_upstream.c` and
`ngx_stream_upstream.c`, and the commands of the balancing modules. Of the commands of such
a block only `zone` is left out.
-/

namespace NginxInterface.Upstream

open Js ConfFile

/-! ## Times -/

/-- The unit that a letter stands for, as the next value of `step` and the seconds. Units come
from the largest to the smallest. -/
def timeUnit (step : Nat) (c : Char) (next : Option Char) : Option (Nat × Nat) :=
  match c with
  | 'y' => if step > 0 then none else some (1, 60 * 60 * 24 * 365)
  | 'M' => if step ≥ 2 then none else some (2, 60 * 60 * 24 * 30)
  | 'w' => if step ≥ 3 then none else some (3, 60 * 60 * 24 * 7)
  | 'd' => if step ≥ 4 then none else some (4, 60 * 60 * 24)
  | 'h' => if step ≥ 5 then none else some (5, 60 * 60)
  | 'm' => if next = some 's' ∨ step ≥ 6 then none else some (6, 60)
  | 's' => if step ≥ 7 then none else some (7, 1)
  | ' ' => if step ≥ 7 then none else some (9, 1)
  | _ => none

/-- The loop of `ngx_parse_time` for seconds. `skip` says that blanks are passed over. -/
def parseTimeLoop (step value total : Nat) (valid skip : Bool) : Text → Option Nat
  | [] => if !valid || total > maxIntValue - value then none else some (total + value)
  | c :: rest =>
      if skip && c = ' ' then parseTimeLoop step value total valid true rest
      else if c.isDigit then
        let digit := c.toNat - '0'.toNat
        if value ≥ maxIntValue / 10 ∧ (value > maxIntValue / 10 ∨ digit > maxIntValue % 10) then
          none
        else parseTimeLoop step (value * 10 + digit) total true false rest
      else
        match timeUnit step c rest.head? with
        | none => none
        | some (step, scale) =>
            if value > maxIntValue / scale ∨ total > maxIntValue - value * scale then none
            else parseTimeLoop step 0 (total + value * scale) valid true rest

/-- `ngx_parse_time` for seconds. -/
def parseTime (line : Text) : Option Nat := parseTimeLoop 0 0 0 false false line

/-! ## The configuration of an upstream -/

/-- The parameters that a balancing method supports. -/
structure Flags where
  weight : Bool := true
  maxConns : Bool := true
  maxFails : Bool := true
  failTimeout : Bool := true
  down : Bool := true
  backup : Bool := true
  deriving DecidableEq

/-- `peer.init_upstream`. -/
inductive Method where
  | roundRobin
  | leastConn
  | ipHash
  | hash (key : Word) (consistent : Bool)
  | keepalive (original : Method)
  deriving DecidableEq

/-- `ngx_http_upstream_srv_conf_t`. An upstream that a `proxy_pass` names is not `created`
before its block comes. `maxCached` belongs to the keepalive module. -/
structure UpstreamConf where
  host : Word
  created : Bool
  port : Nat
  noPort : Bool
  flags : Flags := {}
  method : Option Method := none
  servers : Option (List Server) := none
  maxCached : Nat := 0

/-! ## Commands -/

def invalidParameter (value : Word) : ConfError := .message "invalid parameter" value

def notSupported (value : Word) : ConfError :=
  .message "balancing method does not support parameter" value

/-- A parameter with a value that `parse` reads, if the method supports it. -/
def valueParameter (supported : Bool) (start : Word) (parse : Text → Option Nat) (value : Word) :
    Except ConfError Nat :=
  if !supported then .error (notSupported value)
  else
    match parse (value.drop start.length) with
    | some n => .ok n
    | none => .error (invalidParameter value)

/-- The loop over the parameters of a `server` directive. -/
def serverParameter (flags : Flags) (server : Server) (value : Word) : Except ConfError Server :=
  if "weight=".toList.isPrefixOf value then do
    let weight ← valueParameter flags.weight "weight=".toList boundedAtoi value
    if weight = 0 then .error (invalidParameter value) else .ok { server with weight }
  else if "max_conns=".toList.isPrefixOf value then do
    let maxConns ← valueParameter flags.maxConns "max_conns=".toList boundedAtoi value
    .ok { server with maxConns }
  else if "max_fails=".toList.isPrefixOf value then do
    let maxFails ← valueParameter flags.maxFails "max_fails=".toList boundedAtoi value
    .ok { server with maxFails }
  else if "fail_timeout=".toList.isPrefixOf value then do
    let failTimeout ← valueParameter flags.failTimeout "fail_timeout=".toList parseTime value
    .ok { server with failTimeout }
  else if value = "backup".toList then
    if flags.backup then .ok { server with backup := true } else .error (notSupported value)
  else if value = "down".toList then
    if flags.down then .ok { server with down := true } else .error (notSupported value)
  else .error (invalidParameter value)

/-- `ngx_http_upstream_server` and `ngx_stream_upstream_server`. Only the first has a default
port. -/
def upstreamServer (mode : Mode) (resolve : Resolver) (uscf : UpstreamConf) (words : List Word) :
    Except ConfError UpstreamConf :=
  match words with
  | _ :: address :: parameters => do
      let server ← parameters.foldlM (serverParameter uscf.flags) { addrs := [] }
      let defaultPort := match mode with
        | .http => 80
        | .stream => 0
      match parseInetUrl resolve { defaultPort } address with
      | .error err => .error (.message (err ++ " in upstream") address)
      | .ok u =>
          if mode = .stream ∧ u.noPort then .error (.message "no port in upstream" address)
          else
            .ok { uscf with
              servers := some (uscf.servers.getD [] ++ [{ server with addrs := u.addrs }]) }
  | _ => .error (.invalidNumber "server".toList)

/-- `ngx_http_upstream_least_conn`. -/
def upstreamLeastConn (uscf : UpstreamConf) (_ : List Word) : Except ConfError UpstreamConf :=
  .ok { uscf with method := some .leastConn, flags := {} }

/-- `ngx_http_upstream_ip_hash`, which does not support backup servers. -/
def upstreamIpHash (uscf : UpstreamConf) (_ : List Word) : Except ConfError UpstreamConf :=
  .ok { uscf with method := some .ipHash, flags := { backup := false } }

/-- `ngx_http_upstream_hash`. `compiles` says that the key has no bad variable in it. -/
def upstreamHash (compiles : Word → Bool) (uscf : UpstreamConf) (words : List Word) :
    Except ConfError UpstreamConf :=
  match words with
  | [_, key] =>
      if compiles key then
        .ok { uscf with method := some (.hash key false), flags := { backup := false } }
      else .error (.message "invalid variable name" key)
  | [_, key, value] =>
      if !compiles key then .error (.message "invalid variable name" key)
      else if value = "consistent".toList then
        .ok { uscf with method := some (.hash key true), flags := { backup := false } }
      else .error (invalidParameter value)
  | _ => .error (.invalidNumber "hash".toList)

/-- `ngx_http_upstream_keepalive`. -/
def upstreamKeepalive (uscf : UpstreamConf) (words : List Word) : Except ConfError UpstreamConf :=
  match words with
  | [name, value] =>
      if uscf.maxCached ≠ 0 then .error (.directive name "is duplicate")
      else
        match boundedAtoi value with
        | some (n + 1) =>
            .ok { uscf with
              maxCached := n + 1
              method := some (.keepalive (uscf.method.getD .roundRobin)) }
        | _ => .error (.message "invalid value in \"keepalive\" directive" value)
  | _ => .error (.invalidNumber "keepalive".toList)

section Context

variable (mode : Mode) (resolve : Resolver) (compiles : Word → Bool)

/-- The commands inside of an `upstream` block. -/
def upstreamCommands : List (Command UpstreamConf) :=
  [⟨"server".toList, .oneMore, .simple (upstreamServer mode resolve)⟩,
    ⟨"hash".toList, .take12, .simple (upstreamHash compiles)⟩,
    ⟨"least_conn".toList, .noArgs, .simple upstreamLeastConn⟩] ++
  match mode with
  | .http =>
      [⟨"ip_hash".toList, .noArgs, .simple upstreamIpHash⟩,
        ⟨"keepalive".toList, .take1, .simple upstreamKeepalive⟩]
  | .stream => []

/-- The part of `ngx_http_upstream` that reads the block. -/
def upstreamBody (uscf : UpstreamConf) (body : List Directive) : Except ConfError UpstreamConf := do
  let uscf ←
    confParse (upstreamCommands mode resolve compiles) { uscf with servers := some [] } body
  if uscf.servers = some [] then .error (.message "no servers are inside upstream" uscf.host)
  else .ok uscf

end Context

end NginxInterface.Upstream
