import NginxInterface.Routing.Upstreams
import NginxInterface.Template.Locality
import NginxInterface.Template.Renderable

/-! # Deleting what was added

Deleting the port that an accepted addition has just brought in undoes the addition
in the http table, with one exception: an entry that had no instances at all is gone
afterwards. Additions to the stream table cannot be undone, because deletion only
looks at the http table.
-/

namespace NginxInterface

open Foundation Js Ejs

variable {N : Type} [Number N]

/-- A call that gets as far as writing the file. Whether it then succeeds is up to the
operating system. -/
def Call.Renders (call : Call N) (conf : Conf N) : Prop :=
  (call.exec conf).2 = .updating ∧ ∃ text, render (call.exec conf).1 = .ok text

/-! ## Rendering less -/

omit [Number N] in
theorem eachInstance_ok_of_append {body : Instance N → Except Fault Text}
    {items more : List (Instance N)} {text : Text}
    (h : eachInstance body (.list (items ++ more)) = .ok text) :
    ∃ text, eachInstance body (.list items) = .ok text := by
  rw [eachInstance, List.map_append] at h
  obtain ⟨head, _, hhead, _⟩ := cat_append_eq_ok_iff.mp h
  exact ⟨head, hhead⟩

/-- An application that renders also renders with fewer instances. -/
theorem httpApp_ok_of_append {appKey : String} {entry : Entry N}
    {items more : List (Instance N)} {text : Text} (hitems : entry.instances = .list items)
    (h : httpApp appKey { entry with instances := .list (items ++ more) } = .ok text) :
    ∃ text, httpApp appKey entry = .ok text := by
  have hparts := cat_part_ok h
  obtain ⟨upstream, hupstream⟩ := hparts (upstreamBlock appKey (httpBalance entry)
    (eachInstance httpServer (.list (items ++ more)))) (by simp [httpBalance])
  have hblock := cat_part_ok hupstream
  obtain ⟨balance, hbalance⟩ := hblock (httpBalance entry) (by simp)
  obtain ⟨servers, hservers⟩ := hblock (eachInstance httpServer (.list (items ++ more))) (by simp)
  obtain ⟨name, hname⟩ := hparts (serverNameValue entry).escapeXML (by simp [serverNameValue])
  obtain ⟨listen, hlisten⟩ := hparts (httpListen appKey entry) (by
    simp [httpListen, httpListenSsl, httpListenPlain])
  obtain ⟨fewer, hfewer⟩ := upstreamBlock_ok appKey ⟨balance, hbalance⟩
    (eachInstance_ok_of_append hservers)
  apply cat_ok
  rw [hitems]
  simp [hname, hlisten, hfewer]

/-- A configuration that renders with another http entry renders by itself if its own
entry does. -/
theorem render_ok_of_put {conf : Conf N} {appName : String} {entry : Entry N} {text : Text}
    (h : render (conf.put .http appName entry) = .ok text)
    (hown : ∀ own, conf.appEntry .http appName = some own →
      ∃ text, httpApp appName own = .ok text) : ∃ text, render conf = .ok text := by
  have hparts := cat_part_ok h
  have happ : ∀ (mode : Mode) (query : String) (other : Entry N),
      (mode, query) ≠ (.http, appName) → conf.appEntry mode query = some other →
        ∃ text, appText mode query other = .ok text := by
    intro mode query other hne hother
    rw [← Conf.appEntry_put_of_ne conf entry hne] at hother
    obtain ⟨piece, hpiece, _⟩ := appText_of_render h hother
    exact ⟨piece, hpiece⟩
  refine render_ok (hparts _ (by simp [Conf.put])) (hparts _ (by simp [Conf.put])) ?_ ?_
  · intro query other hother
    exact happ .stream query other (by simp) hother
  · intro query other hother
    by_cases hquery : query = appName
    · exact hown other (hquery ▸ hother) |>.imp fun _ hpiece => hquery ▸ hpiece
    · exact happ .http query other (by simpa using hquery) hother

/-! ## The two operations in sequence -/

/-- An accepted addition of a port that no instance has. -/
theorem addPortRouting_fresh {conf : Conf N} {appName : String} {opts : Opts N} {mode : Mode}
    (hmode : opts.mode.getD .http = mode)
    (hfresh : ∀ item ∈ conf.items mode appName, item.port.looseEq opts.outPort ≠ .ok true)
    (h : (addPortRouting conf appName opts).2 = .updating) :
    (conf.appEntry mode appName = none ∧ (addPortRouting conf appName opts).1 =
      conf.put mode appName (opts.freshEntry [{ port := opts.outPort }])) ∨
    ∃ own items, conf.appEntry mode appName = some own ∧ own.instances = .list items ∧
      (∀ item ∈ items, item.port.looseEq opts.outPort = .ok false) ∧
      (addPortRouting conf appName opts).1 = conf.put mode appName
        { own with instances := .list (items ++ [{ port := opts.outPort }]) } := by
  rw [addPortRouting_eq] at h ⊢
  rw [hmode] at h ⊢
  dsimp only at h ⊢
  rcases addPortChange_updating h with ⟨hfound, hchange⟩ |
    ⟨own, items, hfound, hitems, ⟨hused, -⟩ | ⟨hunused, hchange⟩⟩
  · refine Or.inl ⟨((conf.lookup_eq_absent_iff mode appName).mp hfound).1, ?_⟩
    rw [hchange]
    rfl
  · have hentry := (conf.lookup_eq_own_iff mode appName own).mp hfound
    rw [Conf.items_of_list hentry hitems] at hfresh
    obtain ⟨-, -, hmatch⟩ := portUsed_eq_ok_iff.mp hused
    obtain ⟨item, hitem, hsame⟩ := (hmatch.mp rfl).resolve_left (by simp)
    exact absurd hsame (hfresh item hitem)
  · have hentry := (conf.lookup_eq_own_iff mode appName own).mp hfound
    rw [Conf.items_of_list hentry hitems] at hfresh
    refine Or.inr ⟨own, items, hentry, hitems, ?_, by rw [hchange]; rfl⟩
    intro item hitem
    obtain ⟨hcompared, -, -⟩ := portUsed_eq_ok_iff.mp hunused
    obtain ⟨same, hsame⟩ := hcompared item hitem
    cases same with
    | false => exact hsame
    | true => exact absurd hsame (hfresh item hitem)

/-- Deleting the last instance of an entry. -/
theorem deletePortRouting_put (conf : Conf N) (appName : String) (entry : Entry N) {port : N}
    {items : List (Instance N)}
    (hitems : ∀ item ∈ items, item.port.looseEq (.num port) = .ok false) :
    deletePortRouting (conf.put .http appName
        { entry with instances := .list (items ++ [{ port := .num port }]) }) appName (.num port) =
      (if items = [] then conf.remove .http appName
        else conf.put .http appName { entry with instances := .list items }, .updating) := by
  have hlast : ({ port := .num port } : Instance N).port.looseEq (.num port) = .ok true := by simp
  rw [deletePortRouting_eq, Conf.lookup_of_appEntry (Conf.appEntry_put_self _ _ _ _)]
  simp only [deletePortChange, removeSkipping_concat _ hitems hlast]
  by_cases hempty : items = []
  · simp [hempty, Conf.change, Conf.remove_put]
  · simp [hempty, Conf.change, Conf.put_put]

/-- A deletion of the http table does not bring back an entry of the stream table. -/
theorem stream_add_not_undone {conf added : Conf N} {appName : String} {opts : Opts N}
    (h : (conf.appEntry .stream appName = none ∧
        added = conf.put .stream appName (opts.freshEntry [{ port := opts.outPort }])) ∨
      ∃ own items, conf.appEntry .stream appName = some own ∧ own.instances = .list items ∧
        added = conf.put .stream appName
          { own with instances := .list (items ++ [{ port := opts.outPort }]) })
    (port : Value N) : (deletePortRouting added appName port).1 ≠ conf := by
  intro hrestored
  have hkept : added.appEntry .stream appName = conf.appEntry .stream appName := by
    rw [← hrestored, deletePortRouting_eq]
    exact (Conf.appEntry_change_of_ne added _ (by simp)).symm
  rcases h with ⟨hnone, rfl⟩ | ⟨own, items, hown, hitems, rfl⟩
  · rw [Conf.appEntry_put_self, hnone] at hkept
    cases hkept
  · rw [Conf.appEntry_put_self, hown, Option.some.injEq] at hkept
    have hinstances := congrArg Entry.instances hkept
    rw [hitems, Instances.list.injEq] at hinstances
    exact absurd hinstances (by simp)

/-- After an addition that got as far as writing the file, deleting the port gets as far
and restores the configuration exactly if the table is the http one and the application
was not there with an empty list of instances. -/
theorem delete_undoes_add_iff (conf : Conf N) (appName : String) (opts : Opts N) (port : N)
    (hout : opts.outPort = .num port)
    (hfresh : ∀ item ∈ conf.items (opts.mode.getD .http) appName,
      item.port.looseEq (.num port) ≠ .ok true)
    (hadd : (Call.addPortRouting appName opts).Renders conf) :
    let added := (addPortRouting conf appName opts).1
    ((Call.deletePortRouting appName (.num port)).Renders added ∧
        (deletePortRouting added appName (.num port)).1 = conf) ↔
      opts.mode.getD .http = .http ∧
        ∀ entry, conf.appEntry .http appName = some entry → entry.instances ≠ .list [] := by
  intro added
  obtain ⟨haccepted, text, htext⟩ := hadd
  have htext : render added = .ok text := htext
  rw [← hout] at hfresh
  generalize hmode : opts.mode.getD .http = mode at hfresh
  have hadded := addPortRouting_fresh hmode hfresh haccepted
  rw [show (addPortRouting conf appName opts).1 = added from rfl] at hadded
  clear_value added
  cases mode with
  | stream =>
      refine iff_of_false (fun h => ?_) (fun h => by cases h.1)
      refine stream_add_not_undone (hadded.imp_right ?_) _ h.2
      rintro ⟨own, items, hown, hitems, -, heq⟩
      exact ⟨own, items, hown, hitems, heq⟩
  | http =>
      have hundone : deletePortRouting added appName (.num port) = (conf, .updating) →
          (∃ text, render conf = .ok text) →
          (Call.deletePortRouting appName (.num port)).Renders added ∧
            (deletePortRouting added appName (.num port)).1 = conf := by
        intro hdelete hrender
        refine ⟨⟨congrArg Prod.snd hdelete, ?_⟩, congrArg Prod.fst hdelete⟩
        rw [Call.exec, hdelete]
        exact hrender
      rcases hadded with ⟨hnone, rfl⟩ | ⟨own, items, hown, hitems, hdiffer, rfl⟩
      · have hentry : opts.freshEntry [{ port := opts.outPort }] =
            { opts.freshEntry [] with instances := .list ([] ++ [{ port := .num port }]) } := by
          rw [hout]
          rfl
        refine iff_of_true (hundone ?_ ?_) ⟨rfl, by simp [hnone]⟩
        · rw [hentry, deletePortRouting_put _ _ _ (by simp), if_pos rfl,
            Conf.remove_of_absent hnone]
        · exact render_ok_of_put htext (by simp [hnone])
      · rw [hout] at hdiffer htext hundone ⊢
        have hdelete := deletePortRouting_put conf appName own hdiffer
        by_cases hempty : items = []
        · -- the deletion removes the entry that the addition had found empty
          refine iff_of_false (fun h => ?_) (fun h => h.2 own hown (by rw [hitems, hempty]))
          have hgone := h.2
          rw [hdelete, if_pos hempty] at hgone
          have hentry := congrArg (fun conf => conf.appEntry .http appName) hgone
          simp [hown] at hentry
        · have hsame : ({ own with instances := .list items } : Entry N) = own := by rw [← hitems]
          refine iff_of_true (hundone ?_ ?_) ⟨rfl, fun entry hentry => ?_⟩
          · rw [hdelete, if_neg hempty, hsame, Conf.put_of_appEntry hown]
          · refine render_ok_of_put htext fun entry hentry => ?_
            obtain ⟨piece, hpiece, _⟩ := appText_of_render htext (Conf.appEntry_put_self _ _ _ _)
            rw [hown, Option.some.injEq] at hentry
            exact hentry ▸ httpApp_ok_of_append hitems hpiece
          · rw [hown, Option.some.injEq] at hentry
            rw [← hentry, hitems]
            simpa using hempty

/-- Adding a port to an application of the http table and deleting it again. -/
theorem delete_undoes_add_http :
    let conf := ((Call.forward "web" 80 8001).exec emptyConf).1
    let added := ((Call.forward "web" 80 8002).exec conf).1
    (Call.forward "web" 80 8002).Renders conf ∧
      (deletePortRouting added "web" (.num 8002)).1 = conf := by
  intro conf added
  have hadd : (Call.forward "web" 80 8002).Renders conf := ⟨rfl, _, rfl⟩
  have hundo := (delete_undoes_add_iff conf "web" { inPort := .num 80, outPort := .num 8002 } 8002
    rfl ?_ hadd).mpr ⟨rfl, ?_⟩
  · exact ⟨hadd, hundo.2⟩
  · intro item hitem
    cases List.mem_singleton.mp hitem
    rintro ⟨⟩
  · rintro entry ⟨⟩ ⟨⟩

/-- A port added to the stream table stays there, and the deletion calls back with an
error. -/
theorem stream_add_stays :
    let opts : Opts Int := { inPort := .num 80, outPort := .num 8001, mode := some .stream }
    let added := (addPortRouting emptyConf "web" opts).1
    (Call.addPortRouting "web" opts).Renders emptyConf ∧
      (deletePortRouting added "web" (.num 8001)).2 = .deferred unknownApplication ∧
      (deletePortRouting added "web" (.num 8001)).1.appEntry .stream "web" ≠
        emptyConf.appEntry .stream "web" := by
  refine ⟨⟨rfl, _, rfl⟩, rfl, ?_⟩
  rintro ⟨⟩

end NginxInterface
