import NginxInterface.Cycle.Http
import NginxInterface.Cycle.Stream
import NginxInterface.ConfFile.Buffer

/-! # Loading a file

What `ngx_init_cycle` makes of a file: the servers and upstreams of the two blocks, if the file
can be read, every directive is taken and every address can be bound.
-/

namespace NginxInterface.Cycle

open Js ConfFile Upstream

variable (build : Build)

/-- What a cycle has from its file. -/
structure Loaded where
  events : Bool := false
  stream : Option (StreamConf × List ReadyUpstream) := none
  http : Option (HttpConf × List ReadyUpstream) := none

/-- `ngx_events_block`. -/
def eventsBlock (loaded : Loaded) (words : List Word) (body : List Directive) :
    Except ConfError Loaded :=
  if loaded.events then .error (.directive (words.getD 0 []) "is duplicate")
  else contextParse build .events [] { loaded with events := true } body

/-- `ngx_stream_block`. -/
def streamBlock (loaded : Loaded) (words : List Word) (body : List Directive) :
    Except ConfError Loaded :=
  if loaded.stream.isSome then .error (.directive (words.getD 0 []) "is duplicate")
  else do
    let stream ← loadStream build body
    return { loaded with stream := some stream }

/-- `ngx_http_block`. -/
def httpBlock (loaded : Loaded) (words : List Word) (body : List Directive) :
    Except ConfError Loaded :=
  if loaded.http.isSome then .error (.directive (words.getD 0 []) "is duplicate")
  else do
    let http ← loadHttp build body
    return { loaded with http := some http }

def mainCommands : List (Command Loaded) :=
  [⟨"events".toList, .noArgs, .block (eventsBlock build)⟩,
    ⟨"stream".toList, .noArgs, .block (streamBlock build)⟩,
    ⟨"http".toList, .noArgs, .block (httpBlock build)⟩]

/-! ## Sockets -/

/-- `ngx_http_init_listening` and its counterpart in the stream module: an address needs no
socket of its own if there is one for all addresses of its port. -/
def listening (addrs : List Sockaddr) : List Sockaddr :=
  (addrs.filter fun sockaddr => sockaddr.addr = 0 ∨ ⟨0, sockaddr.port⟩ ∉ addrs).dedup

/-- The system does not bind both addresses. -/
def Overlap (first second : Sockaddr) : Prop :=
  first.port = second.port ∧ (first.addr = 0 ∨ second.addr = 0 ∨ first.addr = second.addr)

instance (first second : Sockaddr) : Decidable (Overlap first second) :=
  inferInstanceAs (Decidable (_ ∧ _))

/-- The sockets that `ngx_open_listening_sockets` opens, one block after the other. -/
def Loaded.sockets (loaded : Loaded) : List Sockaddr :=
  listening ((loaded.http.map fun http => http.1.listen).getD []) ++
    listening ((loaded.stream.map fun stream => stream.1.listen).getD [])

/-- `ngx_init_cycle` for the directives of a file. The section of the events is asked for by
`ngx_event_init_conf`. -/
def initCycle (directives : List Directive) : Except ConfError Loaded := do
  let loaded ← contextParse build .main (mainCommands build) {} directives
  if loaded.events = false then .error (.message "no \"events\" section in configuration" [])
  else if loaded.sockets.Pairwise fun first second => ¬Overlap first second then return loaded
  else .error (.message "bind() failed" [])

/-- `ngx_init_cycle` for the text of a file. -/
def loadFile (text : Text) : Except ConfError Loaded :=
  match readFile text with
  | some directives => initCycle build directives
  | none => .error (.message "unexpected token, end of file or too long parameter" [])

/-! ## Routes -/

def Target.upstream? (upstreams : List ReadyUpstream) : Target → Option ReadyUpstream
  | .upstream index => upstreams[index]?
  | .variables => none

/-- The upstream that a connection to the address is passed on to. -/
def Loaded.streamRoute (loaded : Loaded) (sockaddr : Sockaddr) : Option ReadyUpstream := do
  let (conf, upstreams) ← loaded.stream
  let server ← conf.serverAt sockaddr
  let target ← server.target
  target.upstream? upstreams

/-- The upstream that a request is passed on to. -/
def Loaded.httpRoute (loaded : Loaded) (sockaddr : Sockaddr) (host uri : Word) :
    Option ReadyUpstream := do
  let (conf, upstreams) ← loaded.http
  let server ← conf.findServer sockaddr host
  let location ← server.findLocation uri
  let target ← location.target
  target.upstream? upstreams

end NginxInterface.Cycle
