import NginxInterface.Cycle.Upstreams

/-! # The http block

The servers of the `http` block with their names and locations, from
`ngx_http_core_module.c`, `ngx_http_proxy_module.c` and `ngx_http.c`, and how a request finds
its server and its location.
-/

namespace NginxInterface.Cycle

open Js ConfFile Upstream

variable (build : Build)

/-! ## Locations -/

/-- How the name of a location is compared with that of a request. -/
inductive LocationKind where
  | exact
  | inclusive
  | noregex
  | regex (caseless : Bool)
  | named
  deriving DecidableEq

structure Location where
  kind : LocationKind
  name : Word
  target : Option Target := none

/-- The location that the words stand for. The modifier may be part of the name. -/
def locationName (words : List Word) : Except ConfError Location :=
  let regex (caseless : Bool) (name : Word) : Except ConfError Location :=
    if build.compiles name then .ok { kind := .regex caseless, name }
    else .error (.message "invalid pattern" name)
  match words with
  | [_, modifier, name] =>
      if modifier = ['='] then .ok { kind := .exact, name }
      else if modifier = ['^', '~'] then .ok { kind := .noregex, name }
      else if modifier = ['~'] then regex false name
      else if modifier = ['~', '*'] then regex true name
      else .error (.message "invalid location modifier" modifier)
  | _ =>
      match words.getD 1 [] with
      | '=' :: name => .ok { kind := .exact, name }
      | '^' :: '~' :: name => .ok { kind := .noregex, name }
      | '~' :: '*' :: name => regex true name
      | '~' :: name => regex false name
      | '@' :: name => .ok { kind := .named, name := '@' :: name }
      | name => .ok { kind := .inclusive, name }

/-- Two locations of a server cannot both be chosen by their name. -/
def Location.duplicates (first second : Location) : Bool :=
  first.name = second.name &&
    match first.kind, second.kind with
    | .exact, .exact => true
    | .inclusive, .inclusive | .inclusive, .noregex
    | .noregex, .inclusive | .noregex, .noregex => true
    | _, _ => false

/-- What may stand before an address, with its default port. -/
def urlSchemes : List (Word × Nat) :=
  ("http://".toList, 80) :: if build.ssl then [("https://".toList, 443)] else []

/-- `ngx_http_proxy_pass`. -/
def httpProxyPass (state : List UpstreamConf × Location) (words : List Word) :
    Except ConfError (List UpstreamConf × Location) :=
  if state.2.target.isSome then .error (.directive "proxy_pass".toList "is duplicate")
  else do
    let url := words.getD 1 []
    let (upstreams, target) ←
      if hasVariables url then variablesTarget build url state.1
      else
        match (urlSchemes build).find? fun scheme =>
          sameHost scheme.1 (url.take scheme.1.length) with
        | none => .error (.message "invalid URL prefix" [])
        | some (scheme, defaultPort) =>
            upstreamTarget build .http { defaultPort, uriPart := true, noResolve := true }
              (url.drop scheme.length) state.1
    return (upstreams, { state.2 with target := some target })

def locationCommands : List (Command (List UpstreamConf × Location)) :=
  [⟨"proxy_pass".toList, .take1, .simple (httpProxyPass build)⟩]

/-! ## Servers -/

/-- A server of the `http` block. `preferred` has the addresses with `default_server`. -/
structure HttpServer where
  names : List Word := []
  listen : List Sockaddr := []
  preferred : List Sockaddr := []
  locations : List Location := []

/-- The `http` block so far, without the server that is being read. -/
structure HttpConf where
  upstreams : List UpstreamConf := []
  servers : List HttpServer := []

/-- `ngx_http_core_location` on the level of a server, with the check of
`ngx_http_join_exact_locations`. -/
def httpLocation (state : HttpConf × HttpServer) (words : List Word) (body : List Directive) :
    Except ConfError (HttpConf × HttpServer) := do
  let location ← locationName build words
  if state.2.locations.any location.duplicates then
    .error (.message "duplicate location" location.name)
  else
    let (upstreams, location) ←
      contextParse build .location (locationCommands build) (state.1.upstreams, location) body
    return ({ state.1 with upstreams },
      { state.2 with locations := state.2.locations ++ [location] })

/-- What the parameters of `listen` with a value begin with. -/
def listenOptions : List Word :=
  ["setfib=".toList, "fastopen=".toList, "backlog=".toList, "rcvbuf=".toList, "sndbuf=".toList,
    "accept_filter=".toList, "ipv6only=o".toList, "so_keepalive=".toList]

/-- The parameters of `listen` without a value, except for the two below. -/
def listenFlags : List Word :=
  ["bind".toList, "deferred".toList, "reuseport".toList, "http2".toList, "spdy".toList,
    "proxy_protocol".toList]

/-- A parameter of `listen`; `true` is `default_server`. What sets an option of the socket is
left to the build. -/
def listenParameter (value : Word) : Except ConfError Bool :=
  if value = "default_server".toList ∨ value = "default".toList then .ok true
  else if value = "ssl".toList then
    if build.ssl then .ok false
    else .error (.message "the parameter requires ngx_http_ssl_module" value)
  else if listenFlags.contains value ∨ listenOptions.any fun start => start.isPrefixOf value then
    (build.others .server (.simple ["listen".toList, value])).map fun _ => false
  else .error (.message "invalid parameter" value)

/-- `ngx_http_core_listen` with `ngx_http_add_listen`. Servers may share an address, but only
one of them is the default server. -/
def httpListen (state : HttpConf × HttpServer) (words : List Word) :
    Except ConfError (HttpConf × HttpServer) :=
  let url := words.getD 1 []
  match parseInetUrl build.resolve { listen := true, defaultPort := 80 } url with
  | .error err => .error (.message (err ++ " of the \"listen\" directive") url)
  | .ok u => do
      let preferred ← (words.drop 2).mapM (listenParameter build)
      let sockaddr : Sockaddr := ⟨u.addr, u.port⟩
      if sockaddr ∈ state.2.listen then .error (.message "a duplicate listen" url)
      else if true ∈ preferred then
        if state.1.servers.any fun server => sockaddr ∈ server.preferred then
          .error (.message "a duplicate default server" url)
        else
          return (state.1, { state.2 with
            listen := state.2.listen ++ [sockaddr]
            preferred := state.2.preferred ++ [sockaddr] })
      else return (state.1, { state.2 with listen := state.2.listen ++ [sockaddr] })

/-- A name of a server. One that begins with `~` is a pattern. -/
def serverName (name : Word) : Except ConfError Word :=
  match name with
  | '*' :: '.' :: _ :: _ => .ok (name.map Char.toLower)
  | '*' :: _ => .error (.message "server name is invalid" name)
  | ['.'] => .error (.message "server name is invalid" name)
  | '~' :: pattern =>
      if pattern ≠ [] ∧ build.compiles pattern then .ok name
      else .error (.message "invalid pattern" name)
  | name => .ok (name.map Char.toLower)

/-- `ngx_http_core_server_name`. -/
def httpServerName (state : HttpConf × HttpServer) (words : List Word) :
    Except ConfError (HttpConf × HttpServer) := do
  let names ← words.tail.mapM (serverName build)
  return (state.1, { state.2 with names := state.2.names ++ names })

def serverCommands : List (Command (HttpConf × HttpServer)) :=
  [⟨"listen".toList, .oneMore, .simple (httpListen build)⟩,
    ⟨"server_name".toList, .oneMore, .simple (httpServerName build)⟩,
    ⟨"location".toList, .take12, .block (httpLocation build)⟩]

/-- `ngx_http_core_server`. A server without `listen` has a port that depends on the user, and
one without a name has the empty name. -/
def httpServer (conf : HttpConf) (_ : List Word) (body : List Directive) :
    Except ConfError HttpConf := do
  let (conf, server) ← contextParse build .server (serverCommands build) (conf, {}) body
  let listen := if server.listen = [] then [⟨0, if build.root then 80 else 8000⟩] else server.listen
  let names := if server.names = [] then [[]] else server.names
  return { conf with servers := conf.servers ++ [{ server with listen, names }] }

def httpUpstream (conf : HttpConf) (words : List Word) (body : List Directive) :
    Except ConfError HttpConf := do
  let upstreams ← upstreamBlock build .http conf.upstreams words body
  return { conf with upstreams }

def httpCommands : List (Command HttpConf) :=
  [⟨"server".toList, .noArgs, .block (httpServer build)⟩,
    ⟨"upstream".toList, .take1, .block (httpUpstream build)⟩]

/-- `ngx_http_block` after the duplicate check. -/
def loadHttp (body : List Directive) : Except ConfError (HttpConf × List ReadyUpstream) := do
  let conf ← contextParse build .http (httpCommands build) {} body
  let upstreams ← conf.upstreams.mapM (initUpstream build)
  return (conf, upstreams)

/-! ## Requests -/

def HttpConf.listen (conf : HttpConf) : List Sockaddr := conf.servers.flatMap HttpServer.listen

def HttpConf.serversAt (conf : HttpConf) (sockaddr : Sockaddr) : List HttpServer :=
  conf.servers.filter fun server => addressOf conf.listen sockaddr ∈ server.listen

/-- The server of a connection before the name is known. -/
def HttpConf.defaultServer (conf : HttpConf) (sockaddr : Sockaddr) : Option HttpServer :=
  ((conf.serversAt sockaddr).find? fun server =>
    addressOf conf.listen sockaddr ∈ server.preferred) <|> (conf.serversAt sockaddr).head?

/-- `ngx_http_find_virtual_server` for names that are no patterns: the first server with the
name, and otherwise the default server. -/
def HttpConf.findServer (conf : HttpConf) (sockaddr : Sockaddr) (host : Word) :
    Option HttpServer :=
  ((conf.serversAt sockaddr).find? fun server => server.names.contains (host.map Char.toLower)) <|>
    conf.defaultServer sockaddr

/-- The longer one of two names that match. -/
def longerOf (best : Option Location) (location : Location) : Option Location :=
  match best with
  | none => some location
  | some other => if location.name.length > other.name.length then some location else some other

/-- `ngx_http_core_find_static_location`: the location with this very name, or else the one with
the longest name that the uri begins with. -/
def HttpServer.findLocation (server : HttpServer) (uri : Word) : Option Location :=
  (server.locations.find? fun location => location.kind = .exact && location.name = uri) <|>
    (server.locations.filter fun location =>
      (location.kind = .inclusive || location.kind = .noregex) &&
        location.name.isPrefixOf uri).foldl longerOf none

end NginxInterface.Cycle
