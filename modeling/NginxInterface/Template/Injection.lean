import NginxInterface.Routing.Stores
import NginxInterface.Template.Renderable
import NginxInterface.Template.Resync
import NginxInterface.Template.Worded

/-! # What a call can put into the file

The values of `addPortRouting` are neither checked nor escaped for nginx, so a value
with a semicolon writes directives of its own. When the values are words, the call
adds the two blocks of its application to the file and nothing else, whatever the
other entries of the configuration are.
-/

namespace NginxInterface

open Foundation Js Ejs ConfFile Scan

/-! ## Texts with a block inserted -/

/-- Reading the second text gives what reading the first one gives, with the tokens
inserted at one place. If the first text is refused before that place, so is the
second one. -/
def Inserts (tokens : List Token) (without text : Text) : Prop :=
  (∃ common, scanText .start without = (common, none) ∧ scanText .start text = (common, none)) ∨
  ∃ before after final, scanText .start without = (before ++ after, final) ∧
    scanText .start text = (before ++ tokens ++ after, final)

theorem inserts_of_reads {front block rest other : Text} {tokens : List Token}
    (hfront : Leads AtStart AtStart front) (hblock : Reads .start block tokens .start)
    (hrest : scanText .start other = scanText .start rest) :
    Inserts tokens (front ++ other) (front ++ block ++ rest) := by
  unfold Inserts
  rcases hscan : scanText .start front with ⟨emitted, _ | final⟩
  · left
    rw [List.append_assoc]
    exact ⟨emitted, transduce_append_of_refused readChar other hscan,
      transduce_append_of_refused readChar (block ++ rest) hscan⟩
  · right
    have hfinal : final = .start := hfront .start final rfl (by rw [hscan])
    rw [hfinal] at hscan
    have hboth : Reads .start (front ++ block) (emitted ++ tokens) .start :=
      Reads.append hscan hblock
    have hwithout := transduce_append readChar other hscan
    have hwith := transduce_append readChar rest hboth
    refine ⟨emitted, (scanText .start rest).1, (scanText .start rest).2, ?_, hwith⟩
    rw [← hrest]
    exact hwithout

variable {N : Type} [Number N]

/-! ## The rendering with and without an application -/

omit [Number N] in
/-- The loop over a table prints the application between what it prints without it. -/
theorem eachApp_split {body : String → Entry N → Except Fault Text}
    (hbody : ∀ appKey entry, PartLeads AtStart AtStart (body appKey entry)) {table : Table N}
    {appKey : String} {entry : Entry N} (hentry : table.get? appKey = some entry) {text : Text}
    (h : eachApp body table = .ok text) :
    ∃ before block after, body appKey entry = .ok block ∧ text = before ++ (block ++ after) ∧
      eachApp body (table.erase appKey) = .ok (before ++ after) ∧
      Leads AtStart AtStart before := by
  have hmem : appKey ∈ objectKeys table :=
    mem_objectKeys.mpr ((table.mem_keys_iff appKey).mpr ⟨entry, hentry⟩)
  obtain ⟨first, second, hkeys⟩ := List.append_of_mem hmem
  obtain ⟨herased, hothers⟩ := objectKeys_erase_of_split hkeys
  rw [eachApp, hkeys, List.map_append, List.map_cons] at h
  obtain ⟨before, _, hbefore, hrest, rfl⟩ := cat_append_eq_ok_iff.mp h
  obtain ⟨block, after, hblock, hafter, rfl⟩ := cat_cons_eq_ok hrest
  refine ⟨before, block, after, ?_, rfl, ?_, ?_⟩
  · rwa [atKey, hentry] at hblock
  · rw [eachApp, herased]
    -- removing a key moves none of the others, and their entries are the same
    have hsame : (first ++ second).map (atKey body (table.erase appKey)) =
        first.map (atKey body table) ++ second.map (atKey body table) := by
      rw [← List.map_append]
      refine List.map_congr_left fun other hother => ?_
      have hne : other ≠ appKey := fun heq => hothers (heq ▸ hother)
      rw [atKey, atKey, table.get?_erase_of_ne hne]
    rw [hsame]
    exact cat_append_eq_ok_iff.mpr ⟨before, after, hbefore, hafter, rfl⟩
  · exact PartLeads.map (atKey_resyncs hbody table) before hbefore

theorem httpApps_of_ne_nil {http : Table N} (h : objectKeys http ≠ []) :
    httpApps http = (eachApp httpApp http).map (· ++ ['\n']) := by
  have hopen : segment .slurp "\n   " .slurp = [] := by decide +kernel
  have hclose : segment .plain "\n  " .slurp = ['\n'] := by decide +kernel
  rw [httpApps, if_pos (List.length_pos_iff.mpr h), hopen, hclose, cat_ok_cons]
  cases eachApp httpApp http <;> simp [cat_error_cons, Except.map]

/-- The loop of the http block ends with a line break, and leaves nothing behind when
its only application is gone. -/
theorem httpApps_split {http : Table N} {appKey : String} {entry : Entry N}
    (hentry : http.get? appKey = some entry) {text : Text} (h : httpApps http = .ok text) :
    ∃ before block after, httpApp appKey entry = .ok block ∧
      text = before ++ (block ++ (after ++ ['\n'])) ∧ Leads AtStart AtStart before ∧
      (httpApps (http.erase appKey) = .ok (before ++ (after ++ ['\n'])) ∨
        httpApps (http.erase appKey) = .ok [] ∧ before = [] ∧ after = []) := by
  have hmem : appKey ∈ objectKeys http :=
    mem_objectKeys.mpr ((http.mem_keys_iff appKey).mpr ⟨entry, hentry⟩)
  rw [httpApps_of_ne_nil (List.ne_nil_of_mem hmem)] at h
  cases happs : eachApp httpApp http with
  | error fault => simp [happs, Except.map] at h
  | ok apps =>
      obtain ⟨before, block, after, hblock, rfl, herased, hbefore⟩ :=
        eachApp_split httpApp_resyncs hentry happs
      rw [happs] at h
      refine ⟨before, block, after, hblock, ?_, hbefore, ?_⟩
      · simpa [Except.map] using h.symm
      -- with no other application left the template skips its block, final newline included
      · by_cases hothers : objectKeys (http.erase appKey) = []
        · right
          rw [eachApp, hothers, List.map_nil, cat_nil, Except.ok.injEq, eq_comm,
            List.append_eq_nil_iff] at herased
          exact ⟨by rw [httpApps, hothers]; rfl, herased⟩
        · left
          rw [httpApps_of_ne_nil hothers, herased, ← List.append_assoc]
          rfl

/-- The file holds the text of an application of the http table, and the file without
the application reads like the rest of it. -/
theorem render_split {conf : Conf N} {appKey : String} {entry : Entry N}
    (hentry : conf.appEntry .http appKey = some entry) {text : Text}
    (h : render conf = .ok text) :
    ∃ front block rest other, httpApp appKey entry = .ok block ∧ text = front ++ block ++ rest ∧
      render (conf.remove .http appKey) = .ok (front ++ other) ∧
      scanText .start other = scanText .start rest ∧ Leads AtStart AtStart front := by
  rw [render_eq_renderHead] at h
  obtain ⟨head, _, hhead, hrest, rfl⟩ := cat_append_eq_ok_iff.mp h
  obtain ⟨apps, tail, happs, htail, rfl⟩ := cat_cons_eq_ok hrest
  obtain ⟨before, block, after, hblock, rfl, hbefore, hothers⟩ := httpApps_split hentry happs
  -- a text that was read up to here left the tokenizer between two directives
  have hfront := (renderHead_resyncs conf head hhead).append hbefore
  have hwithout : ∀ others, httpApps (conf.http.erase appKey) = .ok others →
      render (conf.remove .http appKey) = .ok (head ++ (others ++ tail)) := by
    intro others happs
    refine cat_append_eq_ok_iff.mpr ⟨head, others ++ tail, hhead, ?_, rfl⟩
    change cat (httpApps (conf.http.erase appKey) :: _) = _
    rw [happs, cat_ok_cons, htail]
    rfl
  refine ⟨head ++ before, block, after ++ ['\n'] ++ tail, ?_⟩
  rcases hothers with hsome | ⟨hnone, rfl, rfl⟩
  · refine ⟨after ++ ['\n'] ++ tail, hblock, by simp, ?_, rfl, hfront⟩
    rw [hwithout _ hsome]
    simp
  · refine ⟨tail, hblock, by simp, ?_, rfl, hfront⟩
    rw [hwithout _ hnone]
    simp

/-! ## Values that are words -/

/-- The options of a call in http mode, with strings that are words. -/
structure Opts.Worded (opts : Opts N) : Prop where
  mode : opts.mode.getD .http = .http
  inPort : ∃ port, opts.inPort = .str port ∧ PlainWord port.toList
  outPort : ∃ port, opts.outPort = .str port ∧ PlainPart port.toList
  lbMode : opts.lbMode.truthy = false ∨
    ∃ method, opts.lbMode = .str method ∧ PlainWord method.toList

/-- The instance that a call with a plain port adds. -/
theorem Opts.Worded.item {opts : Opts N} (h : opts.Worded) :
    ({ port := opts.outPort } : Instance N).Worded := by
  obtain ⟨port, hport, hplain⟩ := h.outPort
  exact ⟨hport ▸ Value.isPart_str hplain, Or.inl rfl⟩

theorem Opts.Worded.freshEntry {opts : Opts N} (h : opts.Worded) :
    (opts.freshEntry [{ port := opts.outPort }]).Worded where
  port := by
    obtain ⟨port, hport, hplain⟩ := h.inPort
    change opts.inPort.IsWord
    exact hport ▸ Value.isWord_str hplain
  balance := by
    change (opts.lbMode.or .null).truthy = false ∨ ∃ method, opts.lbMode.or .null = .str method ∧ _
    rcases h.lbMode with hfalsy | ⟨method, hmethod, hplain⟩
    · exact Or.inl (by rw [Value.or, hfalsy]; rfl)
    · refine Or.inr ⟨method, ?_, hplain⟩
      rw [hmethod, Value.or, if_pos (by simp [Value.truthy, hplain.ne_empty])]
  instances := by
    refine ⟨_, rfl, fun item hitem => ?_⟩
    rw [List.mem_singleton.mp hitem]
    exact h.item
  serverName := Or.inl rfl
  ssl := by rintro _ ⟨⟩

theorem Opts.Worded.leaves {opts : Opts N} (h : opts.Worded) {found : Option (Entry N)}
    (hfound : ∀ own, found = some own → own.Worded) {entry : Entry N}
    (hleaves : opts.Leaves found entry) : entry.Worded := by
  cases found with
  | none =>
      rw [show entry = _ from hleaves]
      exact h.freshEntry
  | some own =>
      have hown := hfound own rfl
      obtain ⟨items, hinstances, ⟨-, rfl⟩ | rfl⟩ := hleaves
      · exact hown
      · refine ⟨hown.port, hown.balance, ⟨_, rfl, ?_⟩, hown.serverName, hown.ssl⟩
        obtain ⟨_, hlist, hitems⟩ := hown.instances
        rw [hinstances, Instances.list.injEq] at hlist
        intro item hitem
        rcases List.mem_append.mp hitem with hold | hnew
        · exact hitems item (hlist ▸ hold)
        · rw [List.mem_singleton.mp hnew]
          exact h.item

/-- An accepted call with words for values adds the blocks of its application to the
file, with every value in the word it is meant for, and changes nothing else. -/
theorem addPortRouting_inserts (conf : Conf N) (appName : String) (opts : Opts N)
    (hname : PlainWord appName.toList) (hopts : opts.Worded)
    (hentry : ∀ own, conf.appEntry .http appName = some own → own.Worded)
    (haccepted : (addPortRouting conf appName opts).2 = .updating) (text : Text)
    (hrender : render (addPortRouting conf appName opts).1 = .ok text) :
    ∃ entry without, opts.Leaves (conf.appEntry .http appName) entry ∧
      (addPortRouting conf appName opts).1.appEntry .http appName = some entry ∧
      render (conf.remove .http appName) = .ok without ∧
      Inserts (tokensOf (httpEntryDirectives appName entry)) without text := by
  obtain ⟨entry, hstored, hleaves⟩ := addPortRouting_leaves haccepted
  rw [hopts.mode] at hstored hleaves
  obtain ⟨front, block, rest, other, hblock, rfl, hwithout, hscan, hfront⟩ :=
    render_split hstored hrender
  obtain ⟨_, hprinted, hreads⟩ := httpApp_worded hname (hopts.leaves hentry hleaves)
  rw [hblock, Except.ok.injEq] at hprinted
  refine ⟨entry, front ++ other, hleaves, hstored, ?_,
    inserts_of_reads hfront (hprinted ▸ hreads) hscan⟩
  rwa [addPortRouting_eq, hopts.mode, Conf.remove_change] at hwithout

/-! ## A port that is not a word -/

/-- The out port ends its line and its block, and begins another block. -/
def injectingOpts : Opts Int where
  inPort := .str "80"
  outPort := .str "1; \x7d evil on; upstream x \x7b server 1"

/-- What nginx finds in the http block after that call. -/
def injected : List Directive :=
  httpDirectives "web".toList "_".toList (listenDirectives "web".toList "80".toList)
      [directive ["server", "127.0.0.1:1"]] ++
    [directive ["evil", "on"], .block ["upstream".toList, "x".toList] [directive ["server", "1"]]]

theorem httpServer_injecting :
    Prints (httpServer { port := injectingOpts.outPort }) .start
      [.statement ["server".toList, "127.0.0.1:1".toList], .blockDone,
        .statement ["evil".toList, "on".toList], .blockStart ["upstream".toList, "x".toList],
        .statement ["server".toList, "1".toList]] .start := by
  decide +kernel

/-- The call is accepted, and the http block then has a directive and a block outside
the two blocks of the application. -/
theorem outPort_injects :
    (addPortRouting emptyConf "web" injectingOpts).2 = .updating ∧
    ∃ text without, render (addPortRouting emptyConf "web" injectingOpts).1 = .ok text ∧
      render (emptyConf.remove .http "web") = .ok without ∧
      readConf text = some (fileDirectives false [] injected) ∧
      readConf without = some (fileDirectives false [] []) := by
  have happs : Prints (eachApp httpApp (addPortRouting emptyConf "web" injectingOpts).1.http)
      .start (tokensOf injected) .start :=
    .cast (.cons (httpApp_prints (by decide) rfl (by decide)
      (httpListenPlain_prints (by decide) rfl (by decide)) (.nil _)
      (httpServer_injecting.cons (.nil _))) (.nil _)) (by decide +kernel)
  have hfile : Prints (render (addPortRouting emptyConf "web" injectingOpts).1) .start
      (tokensOf (fileDirectives false [] ([] ++ injected))) .start :=
    render_prints rfl (by decide) (.nil _) (.nil _) happs
  have hempty : Prints (render (emptyConf.remove .http "web")) .start
      (tokensOf (fileDirectives false [] ([] ++ []))) .start :=
    render_prints rfl (by decide) (.nil _) (.nil _) (.nil _)
  obtain ⟨text, hrender, hreads⟩ := hfile
  obtain ⟨without, hwithout, hrest⟩ := hempty
  exact ⟨rfl, text, without, hrender, hwithout, readConf_of_reads hreads, readConf_of_reads hrest⟩

/-- A call with words for values, on a configuration that is broken already. -/
def wordOpts : Opts Int where
  inPort := .str "8080"
  outPort := .str "9000"
  lbMode := .str "least_conn"

theorem wordOpts_worded : wordOpts.Worded where
  mode := rfl
  inPort := ⟨"8080", rfl, by decide⟩
  outPort := ⟨"9000", rfl, by decide⟩
  lbMode := Or.inr ⟨"least_conn", rfl, by decide⟩

def brokenConf : Conf Int := (addPortRouting emptyConf "web" injectingOpts).1

theorem addPortRouting_inserts_broken :
    ∃ text entry without, render (addPortRouting brokenConf "api" wordOpts).1 = .ok text ∧
      wordOpts.Leaves none entry ∧ render (brokenConf.remove .http "api") = .ok without ∧
      Inserts (tokensOf (httpEntryDirectives "api" entry)) without text := by
  have hrenderable : (addPortRouting brokenConf "api" wordOpts).1.Renderable :=
    execAll_renderable [.addPortRouting "web" injectingOpts, .addPortRouting "api" wordOpts]
      (Conf.initial_renderable rfl rfl) ⟨fun _ => ⟨rfl, rfl⟩, fun _ => ⟨rfl, rfl⟩, trivial⟩
  obtain ⟨text, hrender⟩ := hrenderable.render_ok
  obtain ⟨entry, without, hleaves, -, hwithout, hinserts⟩ :=
    addPortRouting_inserts brokenConf "api" wordOpts (by decide) wordOpts_worded
      (by rintro _ ⟨⟩) rfl text hrender
  exact ⟨text, entry, without, hrender, hleaves, hwithout, hinserts⟩

end NginxInterface
