import NginxInterface.ConfFile.Access
import NginxInterface.Status.ParseStub
import NginxInterface.Template.Directives
import NginxInterface.Template.Renderable

/-! # The status server

`getStatus` asks the server that the template renders for `status_port`. The two do not
agree on when there is such a server: the template asks whether the port is defined,
`getStatus` whether it is truthy. Nor does the server answer: `deny all` comes first
among its access rules.
-/

namespace NginxInterface

open Foundation Js Ejs ConfFile Status

variable {N : Type} [Number N]

/-! ## The client -/

def statusPortNotConfigured : Fault := .error "Status port not configured".toList

/-- The address that `getStatus` requests, if it takes the port as configured. -/
def statusRequest (statusPort : Value N) : Option (Except Fault Text) :=
  if statusPort.truthy then
    some (statusPort.toText.map fun port =>
      "http://localhost:".toList ++ port ++ "/status".toList)
  else none

/-- `getStatus`, given what comes back for a request. -/
def getStatus (statusPort : Value N) (get : Text → Except Fault Text) :
    Except Fault StubStatus :=
  match statusRequest statusPort with
  | none => .error statusPortNotConfigured
  | some request => do
      let body ← get (← request)
      return parseStub body

/-- `getStatus` treats the status port as configured. -/
def StatusConfigured (statusPort : Value N) : Prop := (statusRequest statusPort).isSome = true

/-! ## The server -/

/-- The text of `location /status`. -/
def statusLocation : Text :=
  segment .plain "    location /status \x7b\n" .plain ++
  segment .plain "      stub_status;\n" .plain ++
  segment .plain "      access_log off;\n" .plain ++
  segment .plain "      deny all;\n" .plain ++
  segment .plain "      allow 127.0.0.1;\n" .plain ++
  segment .plain "    \x7d\n" .plain

/-- The block as it is printed with a text for the port. -/
def statusBlock (port : Text) : Text :=
  segment .slurp "\n  server \x7b\n    listen " .plain ++ port ++ segment .plain ";\n" .plain ++
    statusLocation ++ segment .plain "  \x7d\n  " .slurp

theorem statusServer_eq {statusPort : Value N} (hdefined : statusPort ≠ .undefined) :
    statusServer statusPort = statusPort.escapeXML.map statusBlock := by
  have htail : segment .plain ";\n    location /status \x7b\n" .plain ++
      (segment .plain "      stub_status;\n" .plain ++
      (segment .plain "      access_log off;\n" .plain ++
      (segment .plain "      deny all;\n" .plain ++
      (segment .plain "      allow 127.0.0.1;\n" .plain ++
      segment .plain "    \x7d\n  \x7d\n  " .slurp)))) =
      segment .plain ";\n" .plain ++ statusLocation ++ segment .plain "  \x7d\n  " .slurp := by
    decide +kernel
  unfold statusServer
  split
  · exact absurd rfl hdefined
  · cases statusPort.escapeXML with
    | error fault => rfl
    | ok port =>
        simp only [cat_ok_cons, cat_nil, Except.map, List.append_nil, htail, statusBlock,
          List.append_assoc]

/-- The rendered file holds the block of the status server. -/
def HasStatusBlock (conf : Conf N) (text : Text) : Prop :=
  ∃ port, statusServer conf.statusPort = .ok (statusBlock port) ∧ statusBlock port <:+: text

/-- The access rules of the location in the block. -/
def statusRules : List AccessRule :=
  match readConf statusLocation with
  | some [.block _ body] => accessRules body
  | _ => []

def loopback : InAddr := 0x7f000001

theorem statusRules_eq : statusRules = [denyAll, allowOnly loopback] := by
  have hreads : Reads .start statusLocation
      (tokensOf [.block ["location".toList, "/status".toList] [
        directive ["stub_status"], directive ["access_log", "off"],
        directive ["deny", "all"], directive ["allow", "127.0.0.1"]]]) .start := by
    decide +kernel
  have hread := readConf_of_reads hreads
  unfold statusRules
  rw [hread]
  decide +kernel

/-- Rendered with the port that nginx reads as a word, the block has these rules. -/
theorem accessRules_statusDirective (port : Word) :
    ∃ location, statusDirective port =
        .block ["server".toList] [.simple ["listen".toList, port],
          .block ["location".toList, "/status".toList] location] ∧
      accessRules location = statusRules := by
  refine ⟨_, rfl, ?_⟩
  rw [statusRules_eq]
  decide +kernel

/-! ## When the two agree -/

theorem statusConfigured_iff (statusPort : Value N) :
    StatusConfigured statusPort ↔ statusPort.truthy = true := by
  unfold StatusConfigured statusRequest
  cases statusPort.truthy <;> simp

theorem hasStatusBlock_iff {conf : Conf N} {text : Text} (hrender : render conf = .ok text) :
    HasStatusBlock conf text ↔ conf.statusPort ≠ .undefined := by
  constructor
  · rintro ⟨port, hport, -⟩ hundefined
    rw [hundefined] at hport
    cases hport
  · intro hdefined
    obtain ⟨block, hblock⟩ := cat_part_ok hrender (statusServer conf.statusPort) (by simp)
    have hserver := statusServer_eq hdefined
    cases hescape : conf.statusPort.escapeXML with
    | error fault =>
        rw [hserver, hescape] at hblock
        cases hblock
    | ok port =>
        have hport : statusServer conf.statusPort = .ok (statusBlock port) := by
          rw [hserver, hescape]
          rfl
        refine ⟨port, hport, part_isInfix_cat hrender ?_⟩
        rw [← hport]
        simp

theorem execAll_statusPort (conf : Conf N) (calls : List (Call N)) :
    (execAll conf calls).statusPort = conf.statusPort := by
  induction calls generalizing conf with
  | nil => rfl
  | cons call rest ih => rw [execAll_cons, ih, Call.exec_eq, Conf.change_statusPort]

/-- The client finds a server exactly if one is rendered, and the server admits it and
nobody else. -/
structure StatusAgrees (conf : Conf N) (statusPort : Value N) (text : Text) : Prop where
  present : HasStatusBlock conf text ↔ StatusConfigured statusPort
  admits : HasStatusBlock conf text → ∀ client, Admits statusRules client ↔ client = loopback

/-- Where the port is defined but falsy, the server is rendered and `getStatus` does not
look for it. -/
theorem status_present_iff (debugMode statusPort : Value N) (calls : List (Call N)) {text : Text}
    (hrender : render (execAll (.initial debugMode statusPort) calls) = .ok text) :
    (HasStatusBlock (execAll (.initial debugMode statusPort) calls) text ↔
        StatusConfigured statusPort) ↔
      statusPort = .undefined ∨ statusPort.truthy = true := by
  rw [hasStatusBlock_iff hrender, statusConfigured_iff, execAll_statusPort]
  by_cases hdefined : statusPort = .undefined
  · simp [hdefined, Conf.initial, Value.truthy]
  · simp [hdefined, Conf.initial]

/-- Client and server agree exactly if no status port is given. Given one, the server
turns everybody away. -/
theorem status_agrees_iff (debugMode statusPort : Value N) (calls : List (Call N)) (text : Text)
    (hrender : render (execAll (.initial debugMode statusPort) calls) = .ok text) :
    StatusAgrees (execAll (.initial debugMode statusPort) calls) statusPort text ↔
      statusPort = .undefined := by
  have hport : (execAll (.initial debugMode statusPort) calls).statusPort = statusPort :=
    execAll_statusPort _ calls
  have hblock := hasStatusBlock_iff hrender
  rw [hport] at hblock
  constructor
  · intro hagrees
    by_contra hdefined
    have hadmits := (hagrees.admits (hblock.mpr hdefined) loopback).mpr rfl
    rw [statusRules_eq] at hadmits
    exact not_admits_denyAll _ _ hadmits
  · intro hundefined
    refine ⟨?_, fun hpresent => absurd hundefined (hblock.mp hpresent)⟩
    exact (status_present_iff debugMode statusPort calls hrender).mpr (Or.inl hundefined)

theorem status_agrees_iff_forward :
    ∃ text, render (execAll emptyConf [.forward "web" 80 8001]) = .ok text ∧
      StatusAgrees (execAll emptyConf [.forward "web" 80 8001]) .undefined text := by
  have hok : (render (execAll emptyConf [.forward "web" 80 8001])).isOk = true := by
    decide +kernel
  cases hrender : render (execAll emptyConf [.forward "web" 80 8001]) with
  | error fault =>
      rw [hrender] at hok
      cases hok
  | ok text =>
      exact ⟨text, rfl, (status_agrees_iff .undefined .undefined _ text hrender).mpr rfl⟩

/-- The port of the hand-written configuration, without any application: the request of
`getStatus` is forbidden. -/
theorem status_port_forbidden :
    ∃ text, render (execAll (.initial .undefined (.num 49999)) [] : Conf Int) = .ok text ∧
      HasStatusBlock (execAll (.initial .undefined (.num 49999)) [] : Conf Int) text ∧
      StatusConfigured (.num 49999 : Value Int) ∧
      accessInet statusRules loopback = .forbidden ∧
      ¬StatusAgrees (execAll (.initial .undefined (.num 49999)) [] : Conf Int) (.num 49999)
        text := by
  have hrenderable : (Conf.initial .undefined (.num 49999) : Conf Int).Renderable :=
    Conf.initial_renderable rfl rfl
  obtain ⟨text, hrender⟩ := hrenderable.render_ok
  have hblock : HasStatusBlock (Conf.initial .undefined (.num 49999) : Conf Int) text :=
    (hasStatusBlock_iff hrender).mpr nofun
  have hforbidden : accessInet statusRules loopback = .forbidden := by
    rw [statusRules_eq]
    exact accessInet_denyAll _ _
  refine ⟨text, hrender, hblock, rfl, hforbidden, ?_⟩
  intro hagrees
  exact (hagrees.admits hblock loopback).mpr rfl hforbidden

/-- The rules of the hand-written configuration are the same two in the other order. -/
theorem handwritten_rules_admit (client : InAddr) :
    Admits (accessRules [directive ["allow", "127.0.0.1"], directive ["deny", "all"]]) client ↔
      client = loopback := by
  have hrules : accessRules [directive ["allow", "127.0.0.1"], directive ["deny", "all"]] =
      [allowOnly loopback, denyAll] := by decide +kernel
  rw [hrules]
  exact admits_allowOnly_denyAll loopback client

/-! ## What the client gets -/

/-- `ngx_http_error_403_page` and the tail that follows it. -/
def forbiddenLines : List String :=
  ["<html>", "<head><title>403 Forbidden</title></head>", "<body bgcolor=\"white\">",
    "<center><h1>403 Forbidden</h1></center>", "<hr><center>nginx/1.13.0</center>", "</body>",
    "</html>"]

def forbiddenPage : Text := forbiddenLines.flatMap fun line => line.toList ++ ['\r', '\n']

/-- The body of the answer to a client. -/
def statusAnswer (rules : List AccessRule) (client : InAddr) (counters : Counters) : Text :=
  if accessInet rules client = .forbidden then forbiddenPage else counters.page

theorem parseStub_forbiddenPage : parseStub forbiddenPage = {} := by
  have hlines : forbiddenPage =
      (forbiddenLines.map fun line => line.toList ++ ['\r']).flatMap (· ++ ['\n']) := by
    rw [List.flatMap_map, forbiddenPage]
    simp
  have hone : ∀ line ∈ forbiddenLines, '\n' ∉ line.toList := by decide
  have hfirst : ∀ line ∈ forbiddenLines, line.toList.head? = some '<' := by decide
  have hunread : ∀ line ∈ forbiddenLines.map fun line => line.toList ++ ['\r'], Unread line := by
    intro line hline
    obtain ⟨text, htext, rfl⟩ := List.mem_map.mp hline
    obtain ⟨rest, hrest⟩ := List.head?_eq_some_iff.mp (hfirst text htext)
    rw [hrest]
    exact unread_of_first _ (by decide) (by decide) (by decide)
  rw [hlines, parseStub_terminated]
  · exact Counters.foldl_parseLine_unread hunread {}
  · intro line hline
    obtain ⟨text, htext, rfl⟩ := List.mem_map.mp hline
    simp [hone text htext]

/-- A client that is admitted reads the counters. One that is not reads nothing, and is
told of no error. -/
theorem getStatus_answer {statusPort : Value N} (htruthy : statusPort.truthy = true)
    (hprintable : statusPort.printable = true) (rules : List AccessRule) (counters : Counters) :
    getStatus statusPort (fun _ => .ok (statusAnswer rules loopback counters)) =
      .ok (if accessInet rules loopback = .forbidden then {} else counters.status) := by
  obtain ⟨port, hport⟩ := (Value.printable_iff statusPort).mp hprintable
  have hrequest : getStatus statusPort (fun _ => .ok (statusAnswer rules loopback counters)) =
      .ok (parseStub (statusAnswer rules loopback counters)) := by
    simp only [getStatus, statusRequest, htruthy, hport]
    rfl
  rw [hrequest, statusAnswer]
  split
  · rw [parseStub_forbiddenPage]
  · rw [counters.parseStub_page]

/-- From the rendered server `getStatus` gets an empty status, whatever the counters. -/
theorem getStatus_rendered {statusPort : Value N} (htruthy : statusPort.truthy = true)
    (hprintable : statusPort.printable = true) (counters : Counters) :
    getStatus statusPort (fun _ => .ok (statusAnswer statusRules loopback counters)) = .ok {} := by
  rw [getStatus_answer htruthy hprintable, statusRules_eq, accessInet_denyAll, if_pos rfl]

end NginxInterface
