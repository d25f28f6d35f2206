import NginxInterface.Cycle.Upstreams

/-! # The stream block

The servers of the `stream` block and where they pass connections to, from
`ngx_stream_core_module.c`, `ngx_stream_proxy_module.c` and `ngx_stream.c`.
-/

namespace NginxInterface.Cycle

open Js ConfFile Upstream

variable (build : Build)

/-- A server of the `stream` block. A connection is passed on or answered with a text. -/
structure StreamServer where
  listen : List Sockaddr := []
  target : Option Target := none
  answer : Option Word := none

/-- The `stream` block so far. `listen` has the addresses of all servers. -/
structure StreamConf where
  upstreams : List UpstreamConf := []
  listen : List Sockaddr := []
  servers : List StreamServer := []

/-- `ngx_stream_core_listen`. What the parameters do is left to the build. -/
def streamListen (state : StreamConf × StreamServer) (words : List Word) :
    Except ConfError (StreamConf × StreamServer) :=
  match parseInetUrl build.resolve { listen := true } (words.getD 1 []) with
  | .error err => .error (.message (err ++ " of the \"listen\" directive") (words.getD 1 []))
  | .ok u => do
      let _ ← (words.drop 2).mapM fun value =>
        build.others .streamServer (.simple ["listen".toList, value])
      let sockaddr : Sockaddr := ⟨u.addr, u.port⟩
      if sockaddr ∈ state.1.listen then
        .error (.message "duplicate address and port pair" (words.getD 1 []))
      else
        return ({ state.1 with listen := state.1.listen ++ [sockaddr] },
          { state.2 with listen := state.2.listen ++ [sockaddr] })

/-- `ngx_stream_proxy_pass`. -/
def streamProxyPass (state : StreamConf × StreamServer) (words : List Word) :
    Except ConfError (StreamConf × StreamServer) :=
  if state.2.target.isSome then .error (.directive "proxy_pass".toList "is duplicate")
  else do
    let url := words.getD 1 []
    let (upstreams, target) ←
      if hasVariables url then variablesTarget build url state.1.upstreams
      else upstreamTarget build .stream { noResolve := true } url state.1.upstreams
    return ({ state.1 with upstreams }, { state.2 with target := some target })

/-- `ngx_stream_return`. -/
def streamReturn (state : StreamConf × StreamServer) (words : List Word) :
    Except ConfError (StreamConf × StreamServer) :=
  let text := words.getD 1 []
  if state.2.answer.isSome then .error (.directive "return".toList "is duplicate")
  else if hasVariables text && !build.compiles text then
    .error (.message "invalid variable name" text)
  else .ok (state.1, { state.2 with answer := some text })

def streamServerCommands : List (Command (StreamConf × StreamServer)) :=
  [⟨"listen".toList, .oneMore, .simple (streamListen build)⟩,
    ⟨"proxy_pass".toList, .take1, .simple (streamProxyPass build)⟩,
    ⟨"return".toList, .take1, .simple (streamReturn build)⟩]

/-- `ngx_stream_core_server`. -/
def streamServer (conf : StreamConf) (_ : List Word) (body : List Directive) :
    Except ConfError StreamConf := do
  let (conf, server) ← contextParse build .streamServer (streamServerCommands build) (conf, {}) body
  if server.listen = [] then .error (.message "no \"listen\" is defined for server" [])
  else return { conf with servers := conf.servers ++ [server] }

def streamUpstream (conf : StreamConf) (words : List Word) (body : List Directive) :
    Except ConfError StreamConf := do
  let upstreams ← upstreamBlock build .stream conf.upstreams words body
  return { conf with upstreams }

def streamCommands : List (Command StreamConf) :=
  [⟨"server".toList, .noArgs, .block (streamServer build)⟩,
    ⟨"upstream".toList, .take1, .block (streamUpstream build)⟩]

/-- `ngx_stream_block` after the duplicate check: the servers are merged, then the upstreams
are initialized. -/
def loadStream (body : List Directive) : Except ConfError (StreamConf × List ReadyUpstream) := do
  let conf ← contextParse build .stream (streamCommands build) {} body
  if conf.servers.any fun server => server.target.isNone && server.answer.isNone then
    .error (.message "no handler for server" [])
  else
    let upstreams ← conf.upstreams.mapM (initUpstream build)
    return (conf, upstreams)

/-- The part of `ngx_stream_init_connection` that finds the server. -/
def StreamConf.serverAt (conf : StreamConf) (sockaddr : Sockaddr) : Option StreamServer :=
  conf.servers.find? fun server => addressOf conf.listen sockaddr ∈ server.listen

end NginxInterface.Cycle
