import NginxInterface.Routing.Ports
import NginxInterface.Template.Locality

/-! # Adding ports one by one or all at once

`addOrUpdateAppRouting` on an unknown application and a series of
`addPortRouting` calls build the same entry, except for the balancing method when
none is given: the one stores `'round_robin'`, the other `null`. The http branch of
the template prints nothing for either. The stream branch prints `null;` for the
latter, so the two paths publish different files.
-/

namespace NginxInterface

open Foundation Js Ejs

variable {N : Type} [Number N]

/-! ## The two paths -/

/-- The entry both paths build, up to the balancing method. -/
def portsEntry (inPort balance : Value N) (ports : List N) : Entry N where
  port := inPort
  instances := .list (portInstances ports)
  balance := balance

theorem bulkCall_exec {conf : Conf N} {mode : Mode} {appName : String}
    (habsent : conf.lookup mode appName = .absent) (lbMode inPort : Value N) (ports : List N) :
    ((bulkCall mode appName lbMode inPort ports).exec conf).1 =
      conf.put mode appName (portsEntry inPort (lbMode.or (.str "round_robin")) ports) := by
  rw [Call.exec_eq]
  simp only [bulkCall, Call.mode, Call.appName, Call.change, Option.getD_some, habsent,
    updateChange, newInstances_ports]
  rfl

theorem addCalls_exec_own {conf : Conf N} {mode : Mode} {appName : String}
    {lbMode inPort balance : Value N} (hin : inPort.printable = true) (present ports : List N)
    (hnodup : (present ++ ports).Nodup) :
    execAll (conf.put mode appName (portsEntry inPort balance present))
        (addCalls mode appName lbMode inPort ports) =
      conf.put mode appName (portsEntry inPort balance (present ++ ports)) := by
  induction ports generalizing present with
  | nil => simp [addCalls]
  | cons port rest ih =>
      have hfresh : port ∉ present := fun hmem =>
        (List.nodup_append.mp hnodup).2.2 port hmem port List.mem_cons_self rfl
      have hfound : (conf.put mode appName (portsEntry inPort balance present)).lookup
          mode appName = .own (portsEntry inPort balance present) :=
        Conf.lookup_of_appEntry (Conf.appEntry_put_self _ _ _ _)
      have htail := ih (present ++ [port]) (by rwa [List.append_assoc])
      rw [List.append_assoc, List.singleton_append] at htail
      rw [← htail, addCalls, List.map_cons, execAll_cons, Call.exec_eq]
      simp only [Call.mode, Call.appName, Call.change, Option.getD_some, hfound]
      rw [addPortChange_ports hin rfl rfl, if_neg hfresh]
      simp only [Conf.change, Conf.put_put]
      rfl

theorem addCalls_exec {conf : Conf N} {mode : Mode} {appName : String}
    (habsent : conf.lookup mode appName = .absent) {lbMode inPort : Value N}
    (hin : inPort.printable = true) {ports : List N} (hports : ports ≠ [])
    (hnodup : ports.Nodup) :
    execAll conf (addCalls mode appName lbMode inPort ports) =
      conf.put mode appName (portsEntry inPort (lbMode.or .null) ports) := by
  cases ports with
  | nil => exact absurd rfl hports
  | cons port rest =>
      obtain ⟨message, hmessage⟩ :=
        forwardMessage_ok appName hin (show (Value.num port).printable = true from rfl)
      rw [addCalls, List.map_cons, execAll_cons, Call.exec_eq]
      simp only [Call.mode, Call.appName, Call.change, Option.getD_some, habsent, addPortChange,
        hmessage]
      exact addCalls_exec_own hin [port] rest hnodup

/-! ## The balancing method in the two tables -/

/-- The http branch prints nothing for either default. -/
theorem httpApp_default (appName : String) (inPort : Value N) (ports : List N) :
    httpApp appName (portsEntry inPort (.str "round_robin") ports) =
      httpApp appName (portsEntry inPort .null ports) := by
  have hmissing : httpBalance (portsEntry inPort .null ports) = .ok [] := rfl
  have hdefault : httpBalance (portsEntry inPort (.str "round_robin") ports) = .ok [] := by
    simp [httpBalance, portsEntry, bind, Except.bind, pure, Except.pure]
  simp only [httpApp, hmissing, hdefault]
  rfl

/-- The stream branch prints `null;` for the one and nothing for the other. -/
theorem streamApp_default (appName : String) (inPort : Value N) (ports : List N) :
    Shifts 0 5 (streamApp appName (portsEntry inPort (.str "round_robin") ports))
      (streamApp appName (portsEntry inPort .null ports)) := by
  have hmissing : streamBalance (portsEntry inPort .null ports) = .ok "null;".toList := rfl
  have hdefault : streamBalance (portsEntry inPort (.str "round_robin") ports) = .ok [] := by
    simp [streamBalance, portsEntry, bind, Except.bind, pure, Except.pure]
  have hbalance := Shifts.ok [] "null;".toList
  rw [← hmissing, ← hdefault] at hbalance
  exact (upstreamBlock_shifts appName _ hbalance).cat [_, _, _, _, _, _, _, _] []

/-- Without a balancing method the two paths store different defaults. -/
theorem render_default_iff (conf : Conf N) (mode : Mode) (appName : String) (inPort : Value N)
    (ports : List N) {text : Text}
    (h : render (conf.put mode appName (portsEntry inPort (.str "round_robin") ports)) =
      .ok text) :
    render (conf.put mode appName (portsEntry inPort .null ports)) = .ok text ↔
      mode = .http := by
  cases mode with
  | http =>
      refine iff_of_true ?_ rfl
      have htext : appText .http appName (portsEntry inPort .null ports) =
          appText .http appName (portsEntry inPort (.str "round_robin") ports) :=
        (httpApp_default appName inPort ports).symm
      rw [render_put_congr conf htext, h]
  | stream =>
      refine iff_of_false ?_ (by simp)
      have hshift : Shifts 0 5
          (appText .stream appName (portsEntry inPort (.str "round_robin") ports))
          (appText .stream appName (portsEntry inPort .null ports)) :=
        streamApp_default appName inPort ports
      exact (render_put_shifts conf hshift).ne (by decide) h

theorem Value.printable_of_escapeXML {value : Value N} {text : Text}
    (h : value.escapeXML = .ok text) : value.printable = true := by
  cases hvalue : value.toText with
  | ok converted => exact value.printable_iff.mpr ⟨converted, hvalue⟩
  | error fault =>
      cases value with
      | undefined => rfl
      | null => rfl
      | _ => simp [Value.escapeXML, Value.nullish, hvalue, Except.map] at h

theorem appText_port {mode : Mode} {appName : String} {entry : Entry N} {piece : Text}
    (hssl : entry.ssl = none) (h : appText mode appName entry = .ok piece) :
    entry.port.printable = true := by
  cases mode with
  | http =>
      obtain ⟨listen, hlisten⟩ := cat_part_ok h (httpListen appName entry) (by simp)
      rw [httpListen, hssl] at hlisten
      obtain ⟨port, hport⟩ := cat_part_ok hlisten entry.port.escapeXML (by simp)
      exact Value.printable_of_escapeXML hport
  | stream =>
      obtain ⟨port, hport⟩ := cat_part_ok h entry.port.escapeXML (by simp)
      exact Value.printable_of_escapeXML hport

/-- On a name of `Object.prototype` both paths throw. -/
theorem inherited_exec {conf : Conf N} {mode : Mode} {appName : String}
    (hinherited : conf.lookup mode appName = .inherited) (lbMode inPort : Value N)
    (ports : List N) :
    ((bulkCall mode appName lbMode inPort ports).exec conf).1 = conf ∧
      execAll conf (addCalls mode appName lbMode inPort ports) = conf := by
  constructor
  · rw [Call.exec_eq]
    simp only [bulkCall, Call.mode, Call.appName, Call.change, Option.getD_some, hinherited]
    rfl
  · induction ports with
    | nil => rfl
    | cons port rest ih =>
        rw [addCalls, List.map_cons, execAll_cons, Call.exec_eq]
        simp only [Call.mode, Call.appName, Call.change, Option.getD_some, hinherited]
        exact ih

/-- Where the update renders, the two paths render alike exactly in http mode or
with a balancing method. (For a name of `Object.prototype` both throw and change
nothing.) -/
theorem bulk_agrees_iff (conf : Conf N) (mode : Mode) (appName : String)
    (lbMode inPort : Value N) (ports : List N) (text : Text)
    (habsent : conf.appEntry mode appName = none) (hports : ports ≠ []) (hnodup : ports.Nodup)
    (hbulk : render ((bulkCall mode appName lbMode inPort ports).exec conf).1 = .ok text) :
    render (execAll conf (addCalls mode appName lbMode inPort ports)) = .ok text ↔
      mode = .http ∨ lbMode.truthy = true ∨ appName ∈ objectPrototypeNames := by
  by_cases hname : appName ∈ objectPrototypeNames
  · have hinherited : conf.lookup mode appName = .inherited := by
      simp [Conf.lookup, habsent, hname]
    -- the look-up finds a property of the prototype, and neither path stores an entry
    obtain ⟨hbulkConf, haddConf⟩ := inherited_exec hinherited lbMode inPort ports
    rw [hbulkConf] at hbulk
    rw [haddConf]
    exact iff_of_true hbulk (Or.inr (Or.inr hname))
  · have hlookup := (conf.lookup_eq_absent_iff mode appName).mpr ⟨habsent, hname⟩
    rw [bulkCall_exec hlookup] at hbulk
    -- the port is printed in the bulk text, hence also in the messages of the single calls
    have hin : inPort.printable = true := by
      obtain ⟨piece, hpiece, _⟩ := appText_of_render hbulk (Conf.appEntry_put_self _ _ _ _)
      exact appText_port rfl hpiece
    rw [addCalls_exec hlookup hin hports hnodup]
    cases hmode : lbMode.truthy with
    | true =>
        have hor : ∀ fallback, lbMode.or fallback = lbMode := fun _ => by simp [Value.or, hmode]
        rw [hor] at hbulk ⊢
        exact iff_of_true hbulk (Or.inr (Or.inl rfl))
    | false =>
        have hor : ∀ fallback, lbMode.or fallback = fallback := fun _ => by
          simp [Value.or, hmode]
        rw [hor] at hbulk ⊢
        rw [render_default_iff conf mode appName inPort ports hbulk]
        simp [hname]

/-- In http mode the paths agree, without a balancing method as well. -/
theorem bulk_agrees_http :
    ∃ text, render ((bulkCall .http "web" .undefined (.num 80) [8001, 8002]).exec emptyConf).1 =
        .ok text ∧
      render (execAll emptyConf (addCalls .http "web" .undefined (.num 80) [8001, 8002])) =
        .ok text :=
  ⟨_, rfl, (bulk_agrees_iff emptyConf .http "web" .undefined (.num 80) [8001, 8002] _ rfl
    (by decide) (by decide) rfl).mpr (Or.inl rfl)⟩

/-- In stream mode without a balancing method they do not. -/
theorem bulk_differs_stream :
    ∃ text, render ((bulkCall .stream "web" .undefined (.num 80) [8001]).exec emptyConf).1 =
        .ok text ∧
      render (execAll emptyConf (addCalls .stream "web" .undefined (.num 80) [8001])) ≠
        .ok text := by
  have hlookup : emptyConf.lookup .stream "web" = .absent :=
    (Conf.lookup_eq_absent_iff _ _ _).mpr ⟨rfl, by decide⟩
  refine ⟨_, rfl, ?_⟩
  rw [addCalls_exec hlookup rfl (by decide) (by decide)]
  exact mt (render_default_iff emptyConf .stream "web" (.num 80) [8001] rfl).mp (by decide)

end NginxInterface
