import NginxInterface.Template.Worded

/-! # The file says what the configuration says

For configurations of the documented shape, nginx reads the rendered file as the
directives that `Conf.directives` lists: the blocks are balanced, no statement runs
into another, and nothing is lost in a comment.
-/

namespace NginxInterface

open Foundation Js Ejs ConfFile

variable {N : Type} [Number N]

/-! ## The documented shape -/

/-- Names of applications and of balancing methods. -/
def Name (name : String) : Prop := name ≠ "" ∧ ∀ c ∈ name.toList, nameChar c = true

instance (name : String) : Decidable (Name name) :=
  decidable_of_iff (name ≠ "" ∧ name.toList.all nameChar = true)
    (and_congr_right' List.all_eq_true)

/-- A port, perhaps with a weight. The flag `backup` may be anything. -/
structure Instance.Documented (item : Instance N) : Prop where
  port : ∃ n, item.port = .num n
  weight : item.weight = .undefined ∨ ∃ n, n ≠ Number.zero ∧ item.weight = .num n

structure Entry.Documented (entry : Entry N) : Prop where
  port : ∃ n, entry.port = .num n
  balance : ∃ method, entry.balance = .str method ∧ Name method
  instances : ∃ items, entry.instances = .list items ∧ ∀ item ∈ items, item.Documented
  serverName : entry.serverName = .undefined
  ssl : entry.ssl = none

structure Conf.Documented (conf : Conf N) : Prop where
  debugMode : ∃ debug, conf.debugMode = .bool debug
  statusPort : conf.statusPort = .undefined ∨ ∃ n, conf.statusPort = .num n
  entries : ∀ mode appName entry, conf.appEntry mode appName = some entry →
    Name appName ∧ entry.Documented

/-! ## What such a configuration says -/

def statusDirectives (statusPort : Value N) : List Directive :=
  match statusPort with
  | .undefined => []
  | statusPort => [statusDirective (valueWord statusPort)]

def Conf.directives (conf : Conf N) : List Directive :=
  fileDirectives conf.debugMode.truthy
    (tableDirectives streamEntryDirectives conf.stream)
    (statusDirectives conf.statusPort ++ tableDirectives httpEntryDirectives conf.http)

theorem http_mem_fileDirectives {debug : Bool} {stream http body : List Directive} :
    .block ["http".toList] body ∈ fileDirectives debug stream http ↔ body = http := by
  constructor
  · intro hmem
    simp only [fileDirectives, List.mem_append, List.mem_singleton] at hmem
    rcases hmem with (((hworkers | hlog) | hevents) | hstream) | hhttp
    · cases hworkers
    · split at hlog
      · cases List.mem_singleton.mp hlog
      · cases hlog
    · exact absurd (List.cons.inj (Directive.block.inj hevents).1).1 (by decide)
    · split at hstream
      · cases hstream
      · have hblock := Directive.block.inj (List.mem_singleton.mp hstream)
        exact absurd (List.cons.inj hblock.1).1 (by decide)
    · exact (Directive.block.inj hhttp).2
  · rintro rfl
    exact List.mem_append_right _ List.mem_cons_self

theorem stream_mem_fileDirectives (debug : Bool) {stream : List Directive} (h : stream ≠ [])
    (http : List Directive) :
    .block ["stream".toList] stream ∈ fileDirectives debug stream http := by
  refine List.mem_append_left _ (List.mem_append_right _ ?_)
  rw [if_neg h]
  exact List.mem_singleton.mpr rfl

/-! ## Reading the parts back -/

theorem Name.ordinary {name : String} (h : Name name) :
    ∀ c ∈ name.toList, ordinary c = true := fun c hc => ordinary_of_nameChar (h.2 c hc)

theorem Name.plainWord {name : String} (h : Name name) : PlainWord name.toList :=
  plainWord_of_ordinary (fun hnil => h.1 (String.toList_eq_nil_iff.mp hnil)) h.ordinary

theorem Instance.Documented.worded {item : Instance N} (h : item.Documented) : item.Worded where
  port := (Value.isWord_of_number h.port).isPart
  weight := by
    rcases h.weight with hweight | ⟨n, -, hweight⟩
    · exact Or.inl (by rw [hweight]; rfl)
    · exact Or.inr (Value.isWord_of_number ⟨n, hweight⟩).isPart

theorem Entry.Documented.worded {entry : Entry N} (h : entry.Documented) : entry.Worded where
  port := Value.isWord_of_number h.port
  balance := by
    obtain ⟨method, hmethod, hname⟩ := h.balance
    exact Or.inr ⟨method, hmethod, hname.plainWord⟩
  instances := by
    obtain ⟨items, hinstances, hitems⟩ := h.instances
    exact ⟨items, hinstances, fun item hitem => (hitems item hitem).worded⟩
  serverName := Or.inl (by rw [h.serverName]; rfl)
  ssl := by
    intro ssl hssl
    rw [h.ssl] at hssl
    cases hssl

theorem streamApp_documented {appKey : String} {r : Entry N} (hkey : Name appKey)
    (h : r.Documented) :
    Prints (streamApp appKey r) .start (tokensOf (streamEntryDirectives appKey r)) .start := by
  obtain ⟨method, hmethod, hname⟩ := h.balance
  have hline : '\n' ∉ appKey.toList := fun hmem => absurd (hkey.ordinary '\n' hmem) (by decide)
  exact streamApp_worded hkey.plainWord hline hmethod hname.plainWord h.worded

theorem debugEnabled_bool (debug : Bool) :
    debugEnabled (.bool debug : Value N) = .ok debug := by
  cases debug <;> simp [debugEnabled]

theorem statusServer_worded {statusPort : Value N}
    (h : statusPort = .undefined ∨ statusPort.IsWord) :
    Prints (statusServer statusPort) .start (tokensOf (statusDirectives statusPort)) .start := by
  rcases h with rfl | hword
  · exact .ok (Reads.nil _)
  · have hdefined : statusPort ≠ .undefined := by
      rintro rfl
      have hempty : [] = "undefined".toList := Except.ok.inj hword.1
      exact absurd hempty (by decide)
    have hdirectives : statusDirectives statusPort = [statusDirective (valueWord statusPort)] := by
      unfold statusDirectives
      split
      · exact absurd rfl hdefined
      · rfl
    have hprints := statusServer_prints hdefined hword.1 hword.2
    rwa [hdirectives, tokensOf_cons, tokensOf_nil, List.append_nil]

omit [Number N] in
/-- Every application has directives, so that the stream block is left out exactly
when the table is empty. -/
theorem tableDirectives_eq_nil_iff {directives : String → Entry N → List Directive}
    (hne : ∀ appKey entry, directives appKey entry ≠ []) (table : Table N) :
    objectKeys table = [] ↔ tableDirectives directives table = [] := by
  constructor
  · intro hkeys
    rw [tableDirectives, hkeys]
    rfl
  · intro hnil
    refine List.eq_nil_iff_forall_not_mem.mpr fun appKey hkey => ?_
    obtain ⟨entry, hentry⟩ := (table.mem_keys_iff appKey).mp (mem_objectKeys.mp hkey)
    have hempty := List.flatMap_eq_nil_iff.mp hnil appKey hkey
    rw [hentry] at hempty
    exact hne appKey entry hempty

theorem Conf.Documented.readConf {conf : Conf N} (h : conf.Documented) :
    ∃ text, render conf = .ok text ∧ ConfFile.readConf text = some conf.directives := by
  obtain ⟨debug, hdebug⟩ := h.debugMode
  have henabled : debugEnabled conf.debugMode = .ok conf.debugMode.truthy := by
    rw [hdebug]
    exact debugEnabled_bool debug
  obtain ⟨text, hrender, hreads⟩ := render_prints henabled
    (tableDirectives_eq_nil_iff (by simp [streamEntryDirectives, streamDirectives]) conf.stream)
    (eachApp_prints fun appKey entry hentry =>
      have hdocumented := h.entries .stream appKey entry hentry
      streamApp_documented hdocumented.1 hdocumented.2)
    (statusServer_worded (h.statusPort.imp_right Value.isWord_of_number))
    (eachApp_prints fun appKey entry hentry =>
      have hdocumented := h.entries .http appKey entry hentry
      httpApp_worded hdocumented.1.plainWord hdocumented.2.worded)
  exact ⟨text, hrender, readConf_of_reads hreads⟩

/-- nginx reads the rendering of a documented configuration as the directives of
that configuration. -/
theorem readConf_render (conf : Conf N) (h : conf.Documented) :
    ∃ text, render conf = .ok text ∧ readConf text = some conf.directives :=
  h.readConf

/-! ## A documented configuration -/

theorem Conf.Documented.put {conf : Conf N} (h : conf.Documented) (mode : Mode)
    {appName : String} (hname : Name appName) {entry : Entry N} (hentry : entry.Documented) :
    (conf.put mode appName entry).Documented where
  debugMode := by simpa [Conf.put] using h.debugMode
  statusPort := by simpa [Conf.put] using h.statusPort
  entries := by
    intro other query found hfound
    by_cases hsame : (other, query) = (mode, appName)
    · cases hsame
      rw [Conf.appEntry_put_self, Option.some.injEq] at hfound
      exact ⟨hname, hfound ▸ hentry⟩
    · rw [Conf.appEntry_put_of_ne conf entry hsame] at hfound
      exact h.entries other query found hfound

theorem Conf.initial_documented {debugMode statusPort : Value N}
    (hdebug : debugMode = .undefined ∨ ∃ debug, debugMode = .bool debug)
    (hstatus : statusPort = .undefined ∨ ∃ n, statusPort = .num n) :
    (Conf.initial debugMode statusPort).Documented where
  debugMode := by
    rcases hdebug with rfl | ⟨debug, rfl⟩
    · exact ⟨false, rfl⟩
    · cases debug
      · exact ⟨false, rfl⟩
      · exact ⟨true, rfl⟩
  statusPort := hstatus
  entries := by
    intro mode appName entry hentry
    rw [Conf.appEntry_initial] at hentry
    cases hentry

/-- An entry with a balancing method, a weight and a backup. -/
def weightedEntry : Entry Int where
  port := .num 7000
  balance := .str "least_conn"
  instances := .list
    [{ port := .num 9010, weight := .num 2 }, { port := .num 9011, backup := .bool true }]

theorem weightedEntry_documented : weightedEntry.Documented where
  port := ⟨7000, rfl⟩
  balance := ⟨"least_conn", rfl, by decide⟩
  instances := by
    refine ⟨_, rfl, ?_⟩
    intro item hitem
    rcases List.mem_cons.mp hitem with rfl | hitem
    · exact ⟨⟨9010, rfl⟩, Or.inr ⟨2, by decide, rfl⟩⟩
    · rw [List.mem_singleton.mp hitem]
      exact ⟨⟨9011, rfl⟩, Or.inl rfl⟩
  serverName := rfl
  ssl := rfl

/-- The same entry in both tables, in debug mode and with a status port. -/
def weightedConf : Conf Int :=
  ((Conf.initial (.bool true) (.num 8080)).put .stream "app1" weightedEntry).put .http "app2"
    weightedEntry

theorem weightedConf_documented : weightedConf.Documented :=
  ((Conf.initial_documented (Or.inr ⟨true, rfl⟩) (Or.inr ⟨8080, rfl⟩)).put .stream
    (by decide) weightedEntry_documented).put .http (by decide) weightedEntry_documented

theorem readConf_render_weighted :
    ∃ text, render weightedConf = .ok text ∧ readConf text = some weightedConf.directives :=
  readConf_render weightedConf weightedConf_documented

end NginxInterface
