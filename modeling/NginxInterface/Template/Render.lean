import NginxInterface.Routing.Config
import NginxInterface.Template.Ejs

/-! # The configuration template

`template.cfg`, applied to the configuration. Each definition renders one
construct of the template: the list of its parts follows the template from tag
to tag, with a literal segment between any two of them. A long segment is cut at
line ends; only its two outer ends meet tags.
-/

namespace NginxInterface

open Foundation Js Ejs

variable {N : Type} [Number N]

/-- `<%= app_key %>`. -/
def appKeyText (appKey : String) : Text := Value.escapeText appKey.toList

/-- `<%= i.weight ? ' weight=' + i.weight : '' %>`. -/
def weightText (item : Instance N) : Except Fault Text :=
  if item.weight.truthy then
    item.weight.toText.map fun weight => Value.escapeText (" weight=".toList ++ weight)
  else .ok []

/-- `<%= i.backup ? ' backup' : '' %>`. -/
def backupText (item : Instance N) : Text :=
  if item.backup.truthy then Value.escapeText " backup".toList else []

/-- The body of a loop over `r.instances`; what is not a list has no `forEach`. -/
def eachInstance (body : Instance N → Except Fault Text) : Instances N → Except Fault Text
  | .list items => cat (items.map body)
  | .other _ => .error .typeError

/-- The body of a loop over a table, at one of its keys. -/
def atKey (body : String → Entry N → Except Fault Text) (table : Table N) (appKey : String) :
    Except Fault Text :=
  match table.get? appKey with
  | some entry => body appKey entry
  | none => .error .typeError

/-- The loop over the applications of a table. -/
def eachApp (body : String → Entry N → Except Fault Text) (table : Table N) :
    Except Fault Text :=
  cat ((objectKeys table).map (atKey body table))

/-- The `upstream` block of an application, around its balancing method and its
servers. Both tables have it. -/
def upstreamBlock (appKey : String) (balance servers : Except Fault Text) :
    Except Fault Text :=
  cat [
    .ok (segment .plain "   upstream " .plain),
    .ok (appKeyText appKey),
    .ok (segment .plain " \x7b\n      " .plain),
    balance,
    .ok (segment .plain "\n      " .slurp),
    servers,
    .ok (segment .slurp "\n   \x7d\n   " .slurp)]

/-! ## The stream block -/

/-- `<%= r.balance == 'round_robin' ? '' : r.balance + ';' %>`. -/
def streamBalance (r : Entry N) : Except Fault Text := do
  if ← r.balance.looseEq (.str "round_robin") then return []
  else return Value.escapeText ((← r.balance.toText) ++ [';'])

def streamServer (item : Instance N) : Except Fault Text :=
  cat [
    .ok (segment .slurp "\n      server 127.0.0.1:" .plain),
    item.port.escapeXML,
    weightText item,
    .ok (backupText item),
    .ok (segment .plain ";\n      " .slurp)]

def streamApp (appKey : String) (r : Entry N) : Except Fault Text :=
  cat [
    .ok (segment .slurp "\n   " .plain),
    .ok (segment .plain "\n   #\n   # Auto configured backend for APP " .plain),
    .ok (appKeyText appKey),
    .ok (segment .plain "\n   #\n   server \x7b\n      listen    " .plain),
    r.port.escapeXML,
    .ok (segment .plain ";\n      proxy_pass " .plain),
    .ok (appKeyText appKey),
    .ok (segment .plain ";\n   \x7d\n\n" .plain),
    upstreamBlock appKey (streamBalance r) (eachInstance streamServer r.instances)]

def streamBlock (stream : Table N) : Except Fault Text :=
  if (objectKeys stream).length > 0 then
    cat [
      .ok (segment .slurp "\nstream \x7b\n   " .slurp),
      eachApp streamApp stream,
      .ok (segment .plain "\n\x7d\n" .slurp)]
  else .ok []

/-! ## The http block -/

/-- The server that answers `getStatus`, rendered when `status_port` is defined. -/
def statusServer (statusPort : Value N) : Except Fault Text :=
  match statusPort with
  | .undefined => .ok []
  | statusPort =>
      cat [
        .ok (segment .slurp "\n  server \x7b\n    listen " .plain),
        statusPort.escapeXML,
        .ok (segment .plain ";\n    location /status \x7b\n" .plain),
        .ok (segment .plain "      stub_status;\n" .plain),
        .ok (segment .plain "      access_log off;\n" .plain),
        .ok (segment .plain "      deny all;\n" .plain),
        .ok (segment .plain "      allow 127.0.0.1;\n" .plain),
        .ok (segment .plain "    \x7d\n  \x7d\n  " .slurp)]

/-- `<%= (r.balance == 'round_robin' || !r.balance) ? '' : r.balance + ';' %>`. -/
def httpBalance (r : Entry N) : Except Fault Text := do
  if (← r.balance.looseEq (.str "round_robin")) || !r.balance.truthy then return []
  else return Value.escapeText ((← r.balance.toText) ++ [';'])

def httpServer (item : Instance N) : Except Fault Text :=
  cat [
    .ok (segment .slurp "\n      server 127.0.0.1:" .plain),
    item.port.escapeXML,
    weightText item,
    .ok (segment .plain ";\n      " .slurp)]

/-- The part of a server block for an entry with `ssl`. -/
def httpListenSsl (r : Entry N) (ssl : Ssl N) : Except Fault Text :=
  cat [
    .ok (segment .slurp "\n      listen " .plain),
    r.port.escapeXML,
    .ok (segment .plain " ssl\n   \t  ssl    on;\n" .plain),
    .ok (segment .plain "\t    ssl_certificate     " .plain),
    ssl.cert.escapeXML,
    .ok (segment .plain ";\n\t    ssl_certificate_key " .plain),
    ssl.key.escapeXML,
    .ok (segment .plain ";\n      ssl_session_cache shared:SSL:20m;\n" .plain),
    .ok (segment .plain "      ssl_session_timeout 10m;\n" .plain),
    .ok (segment .plain "      ssl_protocols TLSv1 TLSv1.1 TLSv1.2;\n" .plain),
    .ok (segment .plain "      add_header Strict-Transport-Security " .plain),
    .ok (segment .plain "\"max-age=31536000; includeSubDomain\";\n" .plain),
    .ok (segment .plain "\t    ssl_prefer_server_ciphers   on;\n      " .slurp)]

/-- The part of a server block for an entry without `ssl`. -/
def httpListenPlain (appKey : String) (r : Entry N) : Except Fault Text :=
  cat [
    .ok (segment .slurp "\n      listen " .plain),
    r.port.escapeXML,
    .ok (segment .plain ";\n      location / \x7b\n" .plain),
    .ok (segment .plain "        proxy_redirect     off;\n" .plain),
    .ok (segment .plain "        proxy_set_header   X-Real-IP         $remote_addr;\n" .plain),
    .ok (segment .plain
      "        proxy_set_header   X-Forwarded-For   $proxy_add_x_forwarded_for;\n" .plain),
    .ok (segment .plain "        proxy_set_header   X-Forwarded-Proto $scheme;\n" .plain),
    .ok (segment .plain "        proxy_set_header   Host              $http_host;\n" .plain),
    .ok (segment .plain "        proxy_set_header   X-NginX-Proxy     true;\n" .plain),
    .ok (segment .plain "        proxy_set_header   Connection \"\";\n" .plain),
    .ok (segment .plain "        proxy_set_header Upgrade $http_upgrade;\n" .plain),
    .ok (segment .plain "        proxy_set_header Connection \"upgrade\";\n" .plain),
    .ok (segment .plain "        proxy_http_version 1.1;\n" .plain),
    .ok (segment .plain "        proxy_pass         http://" .plain),
    .ok (appKeyText appKey),
    .ok (segment .plain ";\n      \x7d\n      " .slurp)]

def httpListen (appKey : String) (r : Entry N) : Except Fault Text :=
  match r.ssl with
  | some ssl => httpListenSsl r ssl
  | none => httpListenPlain appKey r

/-- `r.server_name ? r.server_name : '_'`. -/
def serverNameValue (r : Entry N) : Value N :=
  if r.serverName.truthy then r.serverName else .str "_"

def httpApp (appKey : String) (r : Entry N) : Except Fault Text :=
  cat [
    .ok (segment .slurp "\n   " .plain),
    .ok (segment .plain "\n   server \x7b\n      server_name " .plain),
    (serverNameValue r).escapeXML,
    .ok (segment .plain ";\n\n      " .slurp),
    httpListen appKey r,
    .ok (segment .slurp "\n   \x7d\n\n" .plain),
    upstreamBlock appKey (httpBalance r) (eachInstance httpServer r.instances)]

def httpApps (http : Table N) : Except Fault Text :=
  if (objectKeys http).length > 0 then
    cat [
      .ok (segment .slurp "\n   " .slurp),
      eachApp httpApp http,
      .ok (segment .plain "\n  " .slurp)]
  else .ok []

/-! ## The whole file -/

/-- `typeof(debug_mode) != 'undefined' && debug_mode == true`. -/
def debugEnabled (debugMode : Value N) : Except Fault Bool :=
  match debugMode with
  | .undefined => .ok false
  | debugMode => debugMode.looseEq (.bool true)

def errorLog (debugMode : Value N) : Except Fault Text := do
  if ← debugEnabled debugMode then
    return segment .slurp "error_log /dev/stdout info;" .slurp
  else return []

/-- The rendering of `template.cfg`. -/
def render (conf : Conf N) : Except Fault Text :=
  cat [
    .ok (segment .plain "worker_processes  5;  ## Default: 1\n#daemon off;\n" .slurp),
    errorLog conf.debugMode,
    .ok (segment .slurp "\n\nevents \x7b\n" .plain),
    .ok (segment .plain "  worker_connections  4096;  ## Default: 1024\n\x7d\n\n" .slurp),
    streamBlock conf.stream,
    .ok (segment .slurp "\n\nhttp \x7b\n\n  " .slurp),
    statusServer conf.statusPort,
    .ok (segment .slurp "\n\n  " .slurp),
    httpApps conf.http,
    .ok (segment .slurp "\n\x7d\n" .plain)]

end NginxInterface
