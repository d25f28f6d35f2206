import NginxInterface.Upstream.Block

/-! # Upstreams while a file is read

What a `proxy_pass` and an `upstream` block do to the list of upstreams, from
`ngx_http_upstream_add` and `ngx_stream_upstream_add`, and how the upstreams get their peers when
the block around them ends. Commands that take no part in this are left to the build of nginx.
-/

namespace NginxInterface.Cycle

open Js ConfFile Upstream

/-! ## The build -/

inductive Context where
  | main
  | events
  | stream
  | streamServer
  | http
  | server
  | location
  deriving DecidableEq

/-- What is not modelled of nginx and its surroundings: how names are looked up, which variables
and patterns compile, whether there is SSL, whether nginx was started by root, and which
directives the other commands of a context take. -/
structure Build where
  resolve : Resolver
  compiles : Word → Bool
  ssl : Bool
  root : Bool
  others : Context → Directive → Except ConfError Unit

/-- A build that takes all other directives. -/
def openBuild : Build where
  resolve _ := []
  compiles _ := true
  ssl := true
  root := true
  others _ _ := .ok ()

variable (build : Build)

/-- `ngx_conf_handler` with the commands of a context, and otherwise the other commands of the
build. -/
def contextHandler {State : Type} (context : Context) (commands : List (Command State))
    (state : State) (directive : Directive) : Except ConfError State :=
  match commands.find? fun command => command.name = directive.name with
  | none => (build.others context directive).map fun _ => state
  | some _ => confHandler commands state directive

def contextParse {State : Type} (context : Context) (commands : List (Command State))
    (state : State) (body : List Directive) : Except ConfError State :=
  body.foldlM (contextHandler build context commands) state

/-- The address under which a connection to `sockaddr` is found: the very address if something
listens there, and otherwise all addresses of its port. -/
def addressOf (listen : List Sockaddr) (sockaddr : Sockaddr) : Sockaddr :=
  if sockaddr ∈ listen then sockaddr else ⟨0, sockaddr.port⟩

/-! ## Adding an upstream -/

/-- `ngx_strncasecmp` on texts of one length. -/
def sameHost (first second : Word) : Bool := first.map Char.toLower = second.map Char.toLower

/-- The upstream that is added for an address. Before its block comes it may have the server of
the address. -/
def newUpstream (u : Url) (create : Bool) : UpstreamConf where
  host := u.host
  created := create
  port := u.port
  noPort := u.noPort
  servers := match u.addrs with
    | [addr] =>
        if u.port ≠ 0 then
          some [{ addrs := [addr], weight := 0, maxFails := 0, failTimeout := 0 }]
        else none
    | _ => none

/-- The ports of an upstream and of an address keep them apart. -/
def portsDiffer (mode : Mode) (uscf : UpstreamConf) (u : Url) : Bool :=
  match mode with
  | .http => uscf.port ≠ 0 && u.port ≠ 0 && uscf.port ≠ u.port
  | .stream => uscf.port ≠ u.port

/-- The block of the upstream has come. -/
def createUpstream (mode : Mode) (uscf : UpstreamConf) : UpstreamConf :=
  { uscf with
    created := true
    flags := {}
    port := match mode with
      | .http => 0
      | .stream => uscf.port }

/-- `ngx_http_upstream_add` and `ngx_stream_upstream_add`, for an address that has been read:
the upstreams, and the index of the one that is returned. -/
def upstreamAdd (mode : Mode) (u : Url) (create : Bool) :
    List UpstreamConf → Except ConfError (List UpstreamConf × Nat)
  | [] => .ok ([newUpstream u create], 0)
  | uscf :: rest =>
      if !sameHost uscf.host u.host then
        (upstreamAdd mode u create rest).map fun found => (uscf :: found.1, found.2 + 1)
      else if create && uscf.created then .error (.message "duplicate upstream" u.host)
      else if uscf.created && !u.noPort || create && !uscf.noPort then
        .error (.message "upstream may not have port" u.host)
      else if portsDiffer mode uscf u then
        (upstreamAdd mode u create rest).map fun found => (uscf :: found.1, found.2 + 1)
      else .ok ((if create then createUpstream mode uscf else uscf) :: rest, 0)

/-- Where a `proxy_pass` leads: to an upstream, or to what its variables say. -/
inductive Target where
  | upstream (index : Nat)
  | variables
  deriving DecidableEq

def hasVariables (text : Word) : Bool := text.contains '$'

/-- A `proxy_pass` to an address without variables. -/
def upstreamTarget (mode : Mode) (options : UrlOptions) (url : Word)
    (upstreams : List UpstreamConf) : Except ConfError (List UpstreamConf × Target) :=
  match parseInetUrl build.resolve options url with
  | .error err => .error (.message (err ++ " in upstream") url)
  | .ok u => (upstreamAdd mode u false upstreams).map fun found => (found.1, .upstream found.2)

/-- A `proxy_pass` to a text with variables. -/
def variablesTarget (text : Word) (upstreams : List UpstreamConf) :
    Except ConfError (List UpstreamConf × Target) :=
  if build.compiles text then .ok (upstreams, .variables)
  else .error (.message "invalid variable name" text)

/-- `ngx_http_upstream` and `ngx_stream_upstream`. -/
def upstreamBlock (mode : Mode) (upstreams : List UpstreamConf) (words : List Word)
    (body : List Directive) : Except ConfError (List UpstreamConf) := do
  let u : Url := { url := [], host := words.getD 1 [], port := 0, noPort := true }
  let (upstreams, index) ← upstreamAdd mode u true upstreams
  match upstreams[index]? with
  | some uscf =>
      let uscf ← upstreamBody mode build.resolve build.compiles uscf body
      return upstreams.set index uscf
  -- the index is that of an upstream
  | none => return upstreams

/-! ## Upstreams at the end -/

/-- An upstream with its peers. -/
structure ReadyUpstream where
  host : Word
  method : Method
  balancer : Balancer

/-- `ngx_http_upstream_init_round_robin`, which every method calls. An upstream without servers
of its own has those that its name is looked up to. -/
def initUpstream (uscf : UpstreamConf) : Except ConfError ReadyUpstream :=
  let ready (balancer : Balancer) : ReadyUpstream :=
    { host := uscf.host, method := uscf.method.getD .roundRobin, balancer }
  match uscf.servers with
  | some servers =>
      match initRoundRobin servers with
      | some balancer => .ok (ready balancer)
      | none => .error (.message "no servers in upstream" uscf.host)
  | none =>
      if uscf.port = 0 then .error (.message "no port in upstream" uscf.host)
      else
        match build.resolve uscf.host with
        | [] => .error (.message "host not found in upstream" uscf.host)
        | addrs =>
            let server : Server := { addrs := addrs.map fun addr => ⟨addr, uscf.port⟩ }
            .ok (ready ⟨.ofServers [server], none⟩)

end NginxInterface.Cycle
