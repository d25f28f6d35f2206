import NginxInterface.ConfFile.Directive
import NginxInterface.Template.Reading

/-! # The directives of a rendered file

The directives the file is meant to hold, and the proof that each construct of the
template is read as the directives meant by it. A value takes part as the text
printed for it; all that is asked of such a text is that it reads as a word.
-/

namespace NginxInterface

open Foundation Js Ejs ConfFile

/-- A directive of fixed words. -/
def directive (words : List String) : Directive := .simple (words.map String.toList)

/-! ## The intended directives -/

def serverDirective (address : Word) (parameters : List Word) : Directive :=
  .simple ("server".toList :: address :: parameters)

def instanceAddress (port : Text) : Word := "127.0.0.1:".toList ++ port

def streamDirectives (key port : Word) (upstream : List Directive) : List Directive :=
  [ .block ["server".toList] [
      .simple ["listen".toList, port],
      .simple ["proxy_pass".toList, key]],
    .block ["upstream".toList, key] upstream]

def locationDirectives (key : Word) : List Directive :=
  [ directive ["proxy_redirect", "off"],
    directive ["proxy_set_header", "X-Real-IP", "$remote_addr"],
    directive ["proxy_set_header", "X-Forwarded-For", "$proxy_add_x_forwarded_for"],
    directive ["proxy_set_header", "X-Forwarded-Proto", "$scheme"],
    directive ["proxy_set_header", "Host", "$http_host"],
    directive ["proxy_set_header", "X-NginX-Proxy", "true"],
    directive ["proxy_set_header", "Connection", ""],
    directive ["proxy_set_header", "Upgrade", "$http_upgrade"],
    directive ["proxy_set_header", "Connection", "upgrade"],
    directive ["proxy_http_version", "1.1"],
    .simple ["proxy_pass".toList, "http://".toList ++ key]]

def listenDirectives (key port : Word) : List Directive :=
  [ .simple ["listen".toList, port],
    .block ["location".toList, "/".toList] (locationDirectives key)]

/-- With `ssl` there is no semicolon after the port, so that the next line belongs to
the same directive, and there is no location. -/
def sslDirectives (port cert key : Word) : List Directive :=
  [ .simple ["listen".toList, port, "ssl".toList, "ssl".toList, "on".toList],
    .simple ["ssl_certificate".toList, cert],
    .simple ["ssl_certificate_key".toList, key],
    directive ["ssl_session_cache", "shared:SSL:20m"],
    directive ["ssl_session_timeout", "10m"],
    directive ["ssl_protocols", "TLSv1", "TLSv1.1", "TLSv1.2"],
    directive ["add_header", "Strict-Transport-Security", "max-age=31536000; includeSubDomain"],
    directive ["ssl_prefer_server_ciphers", "on"]]

def httpServerBlock (name : Word) (listen : List Directive) : Directive :=
  .block ["server".toList] (.simple ["server_name".toList, name] :: listen)

def httpDirectives (key name : Word) (listen upstream : List Directive) : List Directive :=
  [httpServerBlock name listen, .block ["upstream".toList, key] upstream]

def statusDirective (port : Word) : Directive :=
  .block ["server".toList] [
    .simple ["listen".toList, port],
    .block ["location".toList, "/status".toList] [
      directive ["stub_status"],
      directive ["access_log", "off"],
      directive ["deny", "all"],
      directive ["allow", "127.0.0.1"]]]

/-- The whole file. There is a stream block only if it has something in it, and an
`error_log` only in debug mode. -/
def fileDirectives (debug : Bool) (stream http : List Directive) : List Directive :=
  [directive ["worker_processes", "5"]] ++
  (if debug then [directive ["error_log", "/dev/stdout", "info"]] else []) ++
  [.block ["events".toList] [directive ["worker_connections", "4096"]]] ++
  (if stream = [] then [] else [.block ["stream".toList] stream]) ++
  [.block ["http".toList] http]

/-! ## Servers of an upstream block -/

variable {N : Type} [Number N]

/-- The texts of the loop over the instances: an address, then parameters. -/
theorem reads_server {port : Text} (hport : stays false port = true) {parameters : List Word}
    (hparameters : ∀ parameter ∈ parameters, starts parameter = true) :
    Reads .start (segment .slurp "\n      server 127.0.0.1:" .plain ++ (port ++
        (parameters.flatMap (fun word => ' ' :: word) ++ segment .plain ";\n      " .slurp)))
      (serverDirective (instanceAddress port) parameters).tokens .start := by
  have hopen : Reads .start (segment .slurp "\n      server 127.0.0.1:" .plain) []
      (.inWord ["server".toList] "127.0.0.1:".toList false) := rfl
  have hraw : unescape (instanceAddress port) = instanceAddress port :=
    unescape_append_of_stays (by decide) hport
  have hend : segment .plain ";\n      " .slurp = [';'] ++ ['\n'] := rfl
  have hbreak : Reads .start ['\n'] [] .start := by decide
  rw [hend, ← List.append_assoc (parameters.flatMap _)]
  exact hopen.append ((reads_stays hport _ _).append
    ((reads_parameters hparameters hraw ["server".toList] _).append hbreak))

/-- The parameters that a server line of the stream table carries. -/
def streamParameters (weight : List Word) (item : Instance N) : List Word :=
  weight ++ if item.backup.truthy then ["backup".toList] else []

theorem streamServer_eq {item : Instance N} {port : Text} {weight : List Word}
    (hport : item.port.escapeXML = .ok port)
    (hweight : weightText item = .ok (weight.flatMap fun word => ' ' :: word)) :
    streamServer item = .ok (segment .slurp "\n      server 127.0.0.1:" .plain ++ (port ++
      ((streamParameters weight item).flatMap (fun word => ' ' :: word) ++
        segment .plain ";\n      " .slurp))) := by
  have hbackup : (streamParameters weight item).flatMap (fun word => ' ' :: word) =
      weight.flatMap (fun word => ' ' :: word) ++ backupText item := by
    rw [streamParameters, List.flatMap_append, backupText]
    split
    · rfl
    · rfl
  simp only [streamServer, hport, hweight, hbackup, cat_ok_cons, cat_nil, Except.map,
    List.append_nil, List.append_assoc]

theorem httpServer_eq {item : Instance N} {port : Text} {weight : List Word}
    (hport : item.port.escapeXML = .ok port)
    (hweight : weightText item = .ok (weight.flatMap fun word => ' ' :: word)) :
    httpServer item = .ok (segment .slurp "\n      server 127.0.0.1:" .plain ++ (port ++
      (weight.flatMap (fun word => ' ' :: word) ++ segment .plain ";\n      " .slurp))) := by
  simp only [httpServer, hport, hweight, cat_ok_cons, cat_nil, Except.map, List.append_nil]

theorem starts_streamParameters {weight : List Word} (h : ∀ word ∈ weight, starts word = true)
    (item : Instance N) : ∀ word ∈ streamParameters weight item, starts word = true := by
  intro word hword
  rcases List.mem_append.mp hword with hmem | hbackup
  · exact h word hmem
  · split at hbackup
    · rw [List.mem_singleton.mp hbackup]
      decide
    · cases hbackup

theorem streamServer_prints {item : Instance N} {port : Text} {weight : List Word}
    (hport : item.port.escapeXML = .ok port) (hinside : stays false port = true)
    (hweight : weightText item = .ok (weight.flatMap fun word => ' ' :: word))
    (hwords : ∀ word ∈ weight, starts word = true) :
    Prints (streamServer item) .start
      (serverDirective (instanceAddress port) (streamParameters weight item)).tokens .start :=
  ⟨_, streamServer_eq hport hweight, reads_server hinside (starts_streamParameters hwords item)⟩

theorem httpServer_prints {item : Instance N} {port : Text} {weight : List Word}
    (hport : item.port.escapeXML = .ok port) (hinside : stays false port = true)
    (hweight : weightText item = .ok (weight.flatMap fun word => ' ' :: word))
    (hwords : ∀ word ∈ weight, starts word = true) :
    Prints (httpServer item) .start
      (serverDirective (instanceAddress port) weight).tokens .start :=
  ⟨_, httpServer_eq hport hweight, reads_server hinside hwords⟩

/-! ## Applications -/

omit [Number N] in
theorem upstreamBlock_prints {appKey : String} {balance servers : Except Fault Text}
    {method lines : List Token} (hkey : starts (appKeyText appKey) = true)
    (hbalance : Prints balance .start method .start)
    (hservers : Prints servers .start lines .start) :
    Prints (upstreamBlock appKey balance servers) .start
      (.blockStart ["upstream".toList, appKeyText appKey] :: (method ++ (lines ++ [.blockDone])))
      .start := by
  unfold upstreamBlock
  refine .silent (prints_segment [] (.words ["upstream".toList]) rfl) ?_
  refine .silent (prints_word hkey _) ?_
  refine .one (prints_openBlock (unescape_of_starts hkey) [] .start rfl rfl) ?_
  refine hbalance.cons (.silent (prints_segment [] .start rfl) ?_)
  exact hservers.cons (.one (prints_segment [.blockDone] .start rfl) (.nil _))

theorem streamApp_prints {appKey : String} {r : Entry N} {port : Text}
    {balance servers : List Directive} (hkey : starts (appKeyText appKey) = true)
    (hline : '\n' ∉ appKeyText appKey) (hport : r.port.escapeXML = .ok port)
    (hword : starts port = true)
    (hbalance : Prints (streamBalance r) .start (tokensOf balance) .start)
    (hservers : Prints (eachInstance streamServer r.instances) .start (tokensOf servers) .start) :
    Prints (streamApp appKey r) .start
      (tokensOf (streamDirectives (appKeyText appKey) port (balance ++ servers))) .start := by
  unfold streamApp
  rw [hport]
  refine .silent (prints_segment [] .start rfl) ?_
  refine .silent (prints_segment [] .comment rfl) ?_
  refine .silent (.ok (reads_comment hline)) ?_
  refine .one (prints_segment _ (.words ["listen".toList]) rfl) ?_
  refine .silent (prints_word hword _) ?_
  refine .one (prints_semicolon (unescape_of_starts hword) [] (.words ["proxy_pass".toList])
    rfl rfl) ?_
  refine .silent (prints_word hkey _) ?_
  refine .two (prints_semicolon (unescape_of_starts hkey) [_] .start rfl rfl) ?_
  refine .cast ((upstreamBlock_prints hkey hbalance hservers).cons (.nil _)) ?_
  simp [tokensOf_append, Directive.tokens]

theorem httpListenPlain_prints {appKey : String} {r : Entry N} {port : Text}
    (hkey : starts (appKeyText appKey) = true) (hport : r.port.escapeXML = .ok port)
    (hword : starts port = true) :
    Prints (httpListenPlain appKey r) .start
      (tokensOf (listenDirectives (appKeyText appKey) port)) .start := by
  have hraw : unescape ("http://".toList ++ appKeyText appKey) =
      "http://".toList ++ appKeyText appKey :=
    unescape_append_of_stays (by decide) (stays_of_starts hkey)
  unfold httpListenPlain
  rw [hport]
  refine .silent (prints_segment [] (.words ["listen".toList]) rfl) ?_
  refine .silent (prints_word hword _) ?_
  refine .two (prints_semicolon (unescape_of_starts hword) [_] .start rfl rfl) ?_
  -- the headers, each on a line of its own
  iterate 10 refine .one (prints_segment _ .start (by decide +kernel)) ?_
  refine .silent (prints_segment [] (.inWord ["proxy_pass".toList] "http://".toList false) rfl) ?_
  refine .silent (prints_inside (stays_of_starts hkey) _ _) ?_
  exact .two (prints_semicolon hraw [_] .start rfl rfl) (.nil _)

theorem httpListenSsl_prints {r : Entry N} {ssl : Ssl N} {port cert key : Text}
    (hport : r.port.escapeXML = .ok port) (hword : starts port = true)
    (hcert : ssl.cert.escapeXML = .ok cert) (hcertWord : starts cert = true)
    (hkey : ssl.key.escapeXML = .ok key) (hkeyWord : starts key = true) :
    Prints (httpListenSsl r ssl) .start (tokensOf (sslDirectives port cert key)) .start := by
  unfold httpListenSsl
  rw [hport, hcert, hkey]
  refine .silent (prints_segment [] (.words ["listen".toList]) rfl) ?_
  refine .silent (prints_word hword _) ?_
  refine .one (prints_blank (unescape_of_starts hword) [_] .start rfl (by rfl)) ?_
  refine .silent (prints_segment [] (.words ["ssl_certificate".toList]) rfl) ?_
  refine .silent (prints_word hcertWord _) ?_
  refine .one (prints_semicolon (unescape_of_starts hcertWord) []
    (.words ["ssl_certificate_key".toList]) rfl rfl) ?_
  refine .silent (prints_word hkeyWord _) ?_
  refine .two (prints_semicolon (unescape_of_starts hkeyWord) [_] .start rfl rfl) ?_
  iterate 2 refine .one (prints_segment _ .start rfl) ?_
  -- the header and its quoted value stand in two segments
  refine .silent (prints_segment []
    (.words ["add_header".toList, "Strict-Transport-Security".toList]) rfl) ?_
  iterate 2 refine .one (prints_segment _ .start rfl) ?_
  exact .nil _

/-- The blocks of an application, from what its parts are read as. -/
theorem httpApp_prints {appKey : String} {r : Entry N} {name : Text} {listen : List Directive}
    {balance servers : List Token} (hkey : starts (appKeyText appKey) = true)
    (hname : (serverNameValue r).escapeXML = .ok name) (hword : starts name = true)
    (hlisten : Prints (httpListen appKey r) .start (tokensOf listen) .start)
    (hbalance : Prints (httpBalance r) .start balance .start)
    (hservers : Prints (eachInstance httpServer r.instances) .start servers .start) :
    Prints (httpApp appKey r) .start
      ((httpServerBlock name listen).tokens ++
        .blockStart ["upstream".toList, appKeyText appKey] ::
          (balance ++ (servers ++ [.blockDone]))) .start := by
  unfold httpApp
  rw [hname]
  refine .silent (prints_segment [] .start rfl) ?_
  refine .one (prints_segment _ (.words ["server_name".toList]) rfl) ?_
  refine .silent (prints_word hword _) ?_
  refine .one (prints_semicolon (unescape_of_starts hword) [] .start rfl rfl) ?_
  refine .cast (hlisten.cons
    (.one (prints_segment [.blockDone] .start rfl)
    ((upstreamBlock_prints hkey hbalance hservers).cons (.nil _)))) ?_
  simp

/-! ## The whole file -/

theorem statusServer_prints {statusPort : Value N} {port : Text}
    (hdefined : statusPort ≠ .undefined) (hport : statusPort.escapeXML = .ok port)
    (hword : starts port = true) :
    Prints (statusServer statusPort) .start (statusDirective port).tokens .start := by
  unfold statusServer
  split
  · exact absurd rfl hdefined
  · rw [hport]
    refine .one (prints_segment _ (.words ["listen".toList]) rfl) ?_
    refine .silent (prints_word hword _) ?_
    refine .two (prints_semicolon (unescape_of_starts hword) [_] .start rfl rfl) ?_
    iterate 4 refine .one (prints_segment _ .start rfl) ?_
    exact .two (prints_segment _ .start rfl) (.nil _)

/-- The directives of all applications of a table, in the order of its keys. -/
def tableDirectives (directives : String → Entry N → List Directive) (table : Table N) :
    List Directive :=
  (objectKeys table).flatMap fun appKey => ((table.get? appKey).map (directives appKey)).getD []

omit [Number N] in
theorem eachApp_prints {body : String → Entry N → Except Fault Text}
    {directives : String → Entry N → List Directive} {table : Table N}
    (h : ∀ appKey entry, table.get? appKey = some entry →
      Prints (body appKey entry) .start (tokensOf (directives appKey entry)) .start) :
    Prints (eachApp body table) .start (tokensOf (tableDirectives directives table)) .start := by
  rw [tableDirectives, tokensOf_flatMap]
  refine Prints.map fun appKey hkey => ?_
  obtain ⟨entry, hentry⟩ := (table.mem_keys_iff appKey).mp (mem_objectKeys.mp hkey)
  rw [atKey, hentry]
  exact h appKey entry hentry

theorem streamBlock_prints {stream : Table N} {directives : List Directive}
    (hempty : objectKeys stream = [] ↔ directives = [])
    (h : Prints (eachApp streamApp stream) .start (tokensOf directives) .start) :
    Prints (streamBlock stream) .start
      (tokensOf (if directives = [] then [] else [.block ["stream".toList] directives]))
      .start := by
  unfold streamBlock
  by_cases hkeys : objectKeys stream = []
  · rw [if_neg (by simp [hkeys]), if_pos (hempty.mp hkeys)]
    exact .ok (Reads.nil _)
  · rw [if_pos (List.length_pos_of_ne_nil hkeys), if_neg (mt hempty.mpr hkeys)]
    refine .one (prints_segment _ .start rfl) ?_
    refine .cast (h.cons (.one (prints_segment [.blockDone] .start rfl)
      (.nil _))) ?_
    simp

theorem httpApps_prints {http : Table N} {directives : List Directive}
    (h : Prints (eachApp httpApp http) .start (tokensOf directives) .start) :
    Prints (httpApps http) .start (tokensOf directives) .start := by
  unfold httpApps
  split
  · refine .silent (prints_segment [] .start rfl) ?_
    refine .cast (h.cons (.silent (prints_segment [] .start rfl) (.nil _))) ?_
    simp
  next hkeys =>
    have hnil : objectKeys http = [] := by simpa using hkeys
    rwa [eachApp, hnil] at h

theorem errorLog_prints {debugMode : Value N} {debug : Bool}
    (h : debugEnabled debugMode = .ok debug) :
    Prints (errorLog debugMode) .start
      (tokensOf (if debug then [directive ["error_log", "/dev/stdout", "info"]] else []))
      .start := by
  unfold errorLog
  rw [h]
  cases debug with
  | true => exact prints_segment _ _ rfl
  | false => exact .ok (Reads.nil _)

/-- If its parts are read as they are meant, so is the file. -/
theorem render_prints {conf : Conf N} {debug : Bool} {stream status http : List Directive}
    (hdebug : debugEnabled conf.debugMode = .ok debug)
    (hempty : objectKeys conf.stream = [] ↔ stream = [])
    (hstream : Prints (eachApp streamApp conf.stream) .start (tokensOf stream) .start)
    (hstatus : Prints (statusServer conf.statusPort) .start (tokensOf status) .start)
    (hhttp : Prints (eachApp httpApp conf.http) .start (tokensOf http) .start) :
    Prints (render conf) .start (tokensOf (fileDirectives debug stream (status ++ http)))
      .start := by
  unfold render
  refine .cast (.cons (prints_segment (tokensOf [directive ["worker_processes", "5"]]) .start rfl)
    ((errorLog_prints hdebug).cons
    (.one (prints_segment [.blockStart ["events".toList]] .start rfl)
    (.two (prints_segment [.statement ["worker_connections".toList, "4096".toList], .blockDone]
      .start rfl)
    ((streamBlock_prints hempty hstream).cons
    (.one (prints_segment [.blockStart ["http".toList]] .start rfl)
    (hstatus.cons (.silent (prints_segment [] .start rfl)
    ((httpApps_prints hhttp).cons
    (.one (prints_segment [.blockDone] .start rfl) (.nil _))))))))))) ?_
  simp only [fileDirectives, tokensOf_append, tokensOf_cons, tokensOf_nil, Directive.tokens,
    List.append_assoc, List.cons_append, List.nil_append, List.append_nil]
  rfl

end NginxInterface
