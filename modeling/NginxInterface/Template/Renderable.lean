import NginxInterface.Routing.Stores
import NginxInterface.Template.Render

/-! # Configurations that can be rendered

The template dereferences the instances of every entry and converts every value
it prints to text. A configuration is renderable when all of that succeeds. The
operations keep it so, as long as what they store is a list of printable ports
under printable values; an update whose `out_ports` is not an array stores an
entry on which the template throws.
-/

namespace NginxInterface

open Foundation Js Ejs

variable {N : Type} [Number N]

/-! ## What the template needs -/

structure Instance.Renderable (item : Instance N) : Prop where
  port : item.port.printable = true
  weight : item.weight.printable = true

structure Entry.Renderable (entry : Entry N) : Prop where
  port : entry.port.printable = true
  balance : entry.balance.printable = true
  serverName : entry.serverName.printable = true
  ssl : ∀ ssl, entry.ssl = some ssl → ssl.cert.printable = true ∧ ssl.key.printable = true
  instances : ∃ items, entry.instances = .list items ∧ ∀ item ∈ items, item.Renderable

structure Conf.Renderable (conf : Conf N) : Prop where
  debugMode : conf.debugMode.printable = true
  statusPort : conf.statusPort.printable = true
  entries : ∀ mode appName entry, conf.appEntry mode appName = some entry → entry.Renderable

theorem cat_ok {parts : List (Except Fault Text)} (h : ∀ part ∈ parts, ∃ text, part = .ok text) :
    ∃ text, cat parts = .ok text := by
  induction parts with
  | nil => exact ⟨[], rfl⟩
  | cons part rest ih =>
      obtain ⟨head, rfl⟩ := h part List.mem_cons_self
      obtain ⟨tail, htail⟩ := ih fun other hother => h other (List.mem_cons_of_mem _ hother)
      refine ⟨head ++ tail, ?_⟩
      rw [cat_ok_cons, htail]
      rfl

theorem weightText_ok {item : Instance N} (h : item.Renderable) :
    ∃ text, weightText item = .ok text := by
  obtain ⟨weight, hweight⟩ := item.weight.printable_iff.mp h.weight
  unfold weightText
  split
  · exact ⟨_, by rw [hweight]; rfl⟩
  · exact ⟨[], rfl⟩

theorem streamServer_ok {item : Instance N} (h : item.Renderable) :
    ∃ text, streamServer item = .ok text := by
  obtain ⟨port, hport⟩ := Value.escapeXML_of_printable h.port
  obtain ⟨weight, hweight⟩ := weightText_ok h
  apply cat_ok
  simp [hport, hweight]

theorem httpServer_ok {item : Instance N} (h : item.Renderable) :
    ∃ text, httpServer item = .ok text := by
  obtain ⟨port, hport⟩ := Value.escapeXML_of_printable h.port
  obtain ⟨weight, hweight⟩ := weightText_ok h
  apply cat_ok
  simp [hport, hweight]

theorem eachInstance_ok {body : Instance N → Except Fault Text} {instances : Instances N}
    (hbody : ∀ item, item.Renderable → ∃ text, body item = .ok text)
    (h : ∃ items, instances = .list items ∧ ∀ item ∈ items, item.Renderable) :
    ∃ text, eachInstance body instances = .ok text := by
  obtain ⟨items, rfl, hitems⟩ := h
  apply cat_ok
  intro part hpart
  obtain ⟨item, hitem, rfl⟩ := List.mem_map.mp hpart
  exact hbody item (hitems item hitem)

theorem streamBalance_ok {entry : Entry N} (h : entry.Renderable) :
    ∃ text, streamBalance entry = .ok text := by
  obtain ⟨same, hsame⟩ := Value.looseEq_of_printable h.balance (Value.printable_str "round_robin")
  obtain ⟨balance, hbalance⟩ := entry.balance.printable_iff.mp h.balance
  unfold streamBalance
  rw [hsame, hbalance]
  cases same <;> exact ⟨_, rfl⟩

theorem httpBalance_ok {entry : Entry N} (h : entry.Renderable) :
    ∃ text, httpBalance entry = .ok text := by
  obtain ⟨same, hsame⟩ := Value.looseEq_of_printable h.balance (Value.printable_str "round_robin")
  obtain ⟨balance, hbalance⟩ := entry.balance.printable_iff.mp h.balance
  unfold httpBalance
  rw [hsame, hbalance]
  cases same <;> cases entry.balance.truthy <;> exact ⟨_, rfl⟩

theorem upstreamBlock_ok (appKey : String) {balance servers : Except Fault Text}
    (hbalance : ∃ text, balance = .ok text) (hservers : ∃ text, servers = .ok text) :
    ∃ text, upstreamBlock appKey balance servers = .ok text := by
  apply cat_ok
  simp [hbalance, hservers]

theorem streamApp_ok {entry : Entry N} (appKey : String) (h : entry.Renderable) :
    ∃ text, streamApp appKey entry = .ok text := by
  obtain ⟨port, hport⟩ := Value.escapeXML_of_printable h.port
  obtain ⟨upstream, hupstream⟩ := upstreamBlock_ok appKey (streamBalance_ok h)
    (eachInstance_ok (fun _ => streamServer_ok) h.instances)
  apply cat_ok
  simp [hport, hupstream]

theorem httpListen_ok {entry : Entry N} (appKey : String) (h : entry.Renderable) :
    ∃ text, httpListen appKey entry = .ok text := by
  obtain ⟨port, hport⟩ := Value.escapeXML_of_printable h.port
  unfold httpListen
  cases hssl : entry.ssl with
  | none =>
      apply cat_ok
      simp [hport]
  | some ssl =>
      obtain ⟨hcert, hkey⟩ := h.ssl ssl hssl
      obtain ⟨cert, hcert⟩ := Value.escapeXML_of_printable hcert
      obtain ⟨key, hkey⟩ := Value.escapeXML_of_printable hkey
      apply cat_ok
      simp [hport, hcert, hkey]

theorem serverName_ok {entry : Entry N} (h : entry.Renderable) :
    ∃ text, (serverNameValue entry).escapeXML = .ok text := by
  apply Value.escapeXML_of_printable
  unfold serverNameValue
  split
  · exact h.serverName
  · rfl

theorem httpApp_ok {entry : Entry N} (appKey : String) (h : entry.Renderable) :
    ∃ text, httpApp appKey entry = .ok text := by
  obtain ⟨name, hname⟩ := serverName_ok h
  obtain ⟨listen, hlisten⟩ := httpListen_ok appKey h
  obtain ⟨upstream, hupstream⟩ := upstreamBlock_ok appKey (httpBalance_ok h)
    (eachInstance_ok (fun _ => httpServer_ok) h.instances)
  apply cat_ok
  simp [hname, hlisten, hupstream]

omit [Number N] in
theorem eachApp_ok {body : String → Entry N → Except Fault Text} {table : Table N}
    (hbody : ∀ appKey entry, table.get? appKey = some entry →
      ∃ text, body appKey entry = .ok text) :
    ∃ text, eachApp body table = .ok text := by
  apply cat_ok
  intro part hpart
  obtain ⟨appKey, hkey, rfl⟩ := List.mem_map.mp hpart
  obtain ⟨entry, hentry⟩ := (table.mem_keys_iff appKey).mp (mem_objectKeys.mp hkey)
  rw [atKey, hentry]
  exact hbody appKey entry hentry

theorem streamBlock_ok {table : Table N}
    (h : ∀ appKey entry, table.get? appKey = some entry →
      ∃ text, streamApp appKey entry = .ok text) : ∃ text, streamBlock table = .ok text := by
  obtain ⟨apps, happs⟩ := eachApp_ok h
  unfold streamBlock
  split
  · apply cat_ok
    simp [happs]
  · exact ⟨[], rfl⟩

theorem httpApps_ok {table : Table N}
    (h : ∀ appKey entry, table.get? appKey = some entry →
      ∃ text, httpApp appKey entry = .ok text) : ∃ text, httpApps table = .ok text := by
  obtain ⟨apps, happs⟩ := eachApp_ok h
  unfold httpApps
  split
  · apply cat_ok
    simp [happs]
  · exact ⟨[], rfl⟩

theorem statusServer_ok {statusPort : Value N} (h : statusPort.printable = true) :
    ∃ text, statusServer statusPort = .ok text := by
  obtain ⟨port, hport⟩ := Value.escapeXML_of_printable h
  unfold statusServer
  split
  · exact ⟨[], rfl⟩
  · apply cat_ok
    simp [hport]

theorem errorLog_ok {debugMode : Value N} (h : debugMode.printable = true) :
    ∃ text, errorLog debugMode = .ok text := by
  obtain ⟨enabled, henabled⟩ : ∃ enabled, debugEnabled debugMode = .ok enabled := by
    unfold debugEnabled
    split
    · exact ⟨false, rfl⟩
    · exact Value.looseEq_of_printable h rfl
  unfold errorLog
  rw [henabled]
  cases enabled <;> exact ⟨_, rfl⟩

/-- The template evaluates if it does so on every application and on the two values
outside the tables. -/
theorem render_ok {conf : Conf N} (hlog : ∃ text, errorLog conf.debugMode = .ok text)
    (hstatus : ∃ text, statusServer conf.statusPort = .ok text)
    (hstream : ∀ appKey entry, conf.appEntry .stream appKey = some entry →
      ∃ text, streamApp appKey entry = .ok text)
    (hhttp : ∀ appKey entry, conf.appEntry .http appKey = some entry →
      ∃ text, httpApp appKey entry = .ok text) : ∃ text, render conf = .ok text := by
  obtain ⟨log, hlog⟩ := hlog
  obtain ⟨stream, hstream⟩ : ∃ text, streamBlock conf.stream = .ok text := streamBlock_ok hstream
  obtain ⟨status, hstatus⟩ := hstatus
  obtain ⟨apps, happs⟩ : ∃ text, httpApps conf.http = .ok text := httpApps_ok hhttp
  apply cat_ok
  simp [hlog, hstream, hstatus, happs]

/-- The template evaluates on every renderable configuration. -/
theorem Conf.Renderable.render_ok {conf : Conf N} (h : conf.Renderable) :
    ∃ text, render conf = .ok text :=
  NginxInterface.render_ok (errorLog_ok h.debugMode) (statusServer_ok h.statusPort)
    (fun appKey entry hentry => streamApp_ok appKey (h.entries .stream appKey entry hentry))
    (fun appKey entry hentry => httpApp_ok appKey (h.entries .http appKey entry hentry))

/-! ## What the operations store -/

theorem Conf.Renderable.change {conf : Conf N} (h : conf.Renderable) (mode : Mode)
    (appName : String) {change : Change N}
    (hstore : ∀ entry, change = .store entry → entry.Renderable) :
    (conf.change mode appName change).Renderable := by
  refine ⟨?_, ?_, ?_⟩
  · rw [Conf.change_debugMode]
    exact h.debugMode
  · rw [Conf.change_statusPort]
    exact h.statusPort
  · exact Conf.Every.change h.entries mode appName hstore

/-- A new instance of a printable port is renderable. -/
theorem Instance.Renderable.ofPort {port : Value N} (backup : Value N)
    (h : port.printable = true) : ({ port := port, backup := backup } : Instance N).Renderable :=
  ⟨h, rfl⟩

/-- What `addOrUpdateAppRouting` needs to store a renderable entry: an array of
printable ports, and a printable port and method. -/
structure Routing.Renderable (routing : Routing N) : Prop where
  inPort : routing.inPort.printable = true
  lbMode : routing.lbMode.printable = true
  outPorts : ∃ ports, routing.outPorts = .arr ports ∧ ∀ port ∈ ports, port.printable = true

/-- The condition on a call, in the configuration in which it arrives. A call that
creates or replaces an entry supplies printable values, and an update that is
carried out supplies an array. Nothing is asked of a call that is refused. -/
def Call.StoresRenderable (conf : Conf N) : Call N → Prop
  | .addPortRouting appName opts =>
      conf.lookup (opts.mode.getD .http) appName = .absent →
        opts.inPort.printable = true ∧ opts.lbMode.printable = true
  | .deletePortRouting _ _ => True
  | .addOrUpdateAppRouting _ .notObject => True
  | .addOrUpdateAppRouting appName (.object routing) =>
      match conf.lookup (routing.mode.getD .stream) appName with
      | .absent => routing.Renderable
      | .inherited => True
      | .own previous =>
          match previous.instances with
          | .other _ => True
          | .list items =>
              (∃ swapped, demotePrevious appName items (newInstances routing.outPorts) =
                .ok swapped) → routing.Renderable

theorem Opts.freshEntry_renderable {opts : Opts N} {items : List (Instance N)}
    (hport : opts.inPort.printable = true) (hmode : opts.lbMode.printable = true)
    (hitems : ∀ item ∈ items, item.Renderable) : (opts.freshEntry items).Renderable where
  port := hport
  balance := Value.printable_or hmode rfl
  serverName := rfl
  ssl := by rintro _ ⟨⟩
  instances := ⟨items, rfl, hitems⟩

theorem Entry.Renderable.items {entry : Entry N} (h : entry.Renderable)
    {items : List (Instance N)} (hitems : entry.instances = .list items) :
    ∀ item ∈ items, item.Renderable := by
  obtain ⟨found, hfound, hrenderable⟩ := h.instances
  rw [hitems, Instances.list.injEq] at hfound
  exact hfound ▸ hrenderable

theorem Entry.Renderable.withInstances {entry : Entry N} (h : entry.Renderable)
    {items : List (Instance N)} (hitems : ∀ item ∈ items, item.Renderable) :
    ({ entry with instances := .list items } : Entry N).Renderable where
  port := h.port
  balance := h.balance
  serverName := h.serverName
  ssl := h.ssl
  instances := ⟨items, rfl, hitems⟩

theorem addPortChange_renderable {appName : String} {opts : Opts N} {found : Found N}
    {entry : Entry N}
    (hfresh : found = .absent → opts.inPort.printable = true ∧ opts.lbMode.printable = true)
    (hown : ∀ own, found = .own own → own.Renderable)
    (h : (addPortChange appName opts found).1 = .store entry) : entry.Renderable := by
  rcases addPortChange_store h with
    ⟨habsent, rfl | ⟨hport, rfl⟩⟩ | ⟨own, items, hfound, hitems, _, hport, rfl⟩
  · exact Opts.freshEntry_renderable (hfresh habsent).1 (hfresh habsent).2 (by simp)
  · refine Opts.freshEntry_renderable (hfresh habsent).1 (hfresh habsent).2 ?_
    intro item hitem
    rw [List.mem_singleton.mp hitem]
    exact .ofPort _ hport
  · refine (hown own hfound).withInstances ?_
    intro item hitem
    rcases List.mem_append.mp hitem with hold | hnew
    · exact (hown own hfound).items hitems item hold
    · rw [List.mem_singleton.mp hnew]
      exact .ofPort _ hport

theorem deletePortChange_renderable {port : Value N} {found : Found N} {entry : Entry N}
    (hown : ∀ own, found = .own own → own.Renderable)
    (h : (deletePortChange port found).1 = .store entry) : entry.Renderable := by
  obtain ⟨own, items, kept, hfound, hitems, hkept, rfl⟩ := deletePortChange_store h
  refine (hown own hfound).withInstances ?_
  intro item hitem
  exact (hown own hfound).items hitems item (hkept.subset hitem)

theorem Routing.Renderable.newEntry {routing : Routing N} (h : routing.Renderable)
    {items : List (Instance N)} (hitems : ∀ item ∈ items, item.Renderable) :
    (routing.newEntry (.list items)).Renderable where
  port := h.inPort
  balance := Value.printable_or h.lbMode rfl
  serverName := rfl
  ssl := by rintro _ ⟨⟩
  instances := ⟨items, rfl, hitems⟩

theorem Routing.Renderable.newInstances {routing : Routing N} (h : routing.Renderable) :
    ∃ items, newInstances routing.outPorts = .list items ∧ ∀ item ∈ items, item.Renderable := by
  obtain ⟨ports, hports, hprintable⟩ := h.outPorts
  refine ⟨_, by rw [hports, NginxInterface.newInstances], ?_⟩
  intro item hitem
  obtain ⟨port, hport, rfl⟩ := List.mem_map.mp hitem
  exact .ofPort _ (hprintable port hport)

theorem demoted_renderable {olds : List (Instance N)} (h : ∀ item ∈ olds, item.Renderable) :
    ∀ item ∈ demoted olds, item.Renderable := by
  intro item hitem
  obtain ⟨old, hold, rfl⟩ := List.mem_map.mp hitem
  exact .ofPort _ (h old (List.mem_of_mem_filter hold)).port

theorem updateChange_renderable {appName : String} {routing : Routing N} {found : Found N}
    {entry : Entry N}
    (hrouting : found = .absent → routing.Renderable)
    (hswap : ∀ previous items, found = .own previous → previous.instances = .list items →
      (∃ swapped, demotePrevious appName items (newInstances routing.outPorts) = .ok swapped) →
      routing.Renderable)
    (hown : ∀ own, found = .own own → own.Renderable)
    (h : (updateChange appName (.object routing) found).1 = .store entry) :
    entry.Renderable := by
  obtain ⟨_, ⟨⟩, ⟨habsent, rfl⟩ | ⟨previous, olds, swapped, hfound, holds, hdemote, rfl⟩⟩ :=
    updateChange_store h
  · obtain ⟨items, hitems, hrenderable⟩ := (hrouting habsent).newInstances
    rw [hitems]
    exact (hrouting habsent).newEntry hrenderable
  · have hnew := hswap previous olds hfound holds ⟨swapped, hdemote⟩
    obtain ⟨items, hitems, hrenderable⟩ := hnew.newInstances
    rw [hitems] at hdemote
    rw [demotePrevious_list hdemote]
    refine hnew.newEntry ?_
    intro item hitem
    rcases List.mem_append.mp hitem with hfresh | hbackup
    · exact hrenderable item hfresh
    · exact demoted_renderable ((hown previous hfound).items holds) item hbackup

/-- One call keeps the configuration renderable. -/
theorem Call.exec_renderable {call : Call N} {conf : Conf N} (hconf : conf.Renderable)
    (hcall : call.StoresRenderable conf) : (call.exec conf).1.Renderable := by
  rw [Call.exec_eq]
  refine hconf.change _ _ ?_
  intro entry hstore
  have hown : ∀ own, conf.lookup call.mode call.appName = .own own → own.Renderable :=
    fun own hlookup => hconf.entries _ _ own ((conf.lookup_eq_own_iff _ _ own).mp hlookup)
  cases call with
  | addPortRouting appName opts => exact addPortChange_renderable hcall hown hstore
  | deletePortRouting appName port => exact deletePortChange_renderable hown hstore
  | addOrUpdateAppRouting appName routing =>
      cases routing with
      | notObject => cases hstore
      | object routing =>
          refine updateChange_renderable ?_ ?_ hown hstore
          · intro habsent
            simp only [StoresRenderable] at hcall
            simp only [mode, Call.appName] at habsent
            rwa [habsent] at hcall
          · intro previous items hprevious hinstances
            simp only [StoresRenderable] at hcall
            simp only [mode, Call.appName] at hprevious
            rw [hprevious] at hcall
            simp only [hinstances] at hcall
            exact hcall

/-! ## Whole runs -/

theorem execAll_renderable {conf : Conf N} (calls : List (Call N)) (hconf : conf.Renderable)
    (hcalls : RunMeets (fun conf call => call.StoresRenderable conf) conf calls) :
    (execAll conf calls).Renderable := by
  induction calls generalizing conf with
  | nil => exact hconf
  | cons call rest ih =>
      rw [execAll_cons]
      exact ih (Call.exec_renderable hconf hcalls.1) hcalls.2

theorem Conf.initial_renderable {debugMode statusPort : Value N}
    (hdebug : debugMode.printable = true) (hstatus : statusPort.printable = true) :
    (Conf.initial debugMode statusPort).Renderable where
  debugMode := Value.printable_or hdebug rfl
  statusPort := hstatus
  entries := Conf.Every.initial debugMode statusPort

end NginxInterface
