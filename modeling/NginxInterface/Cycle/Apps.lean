import NginxInterface.Cycle.Backends
import NginxInterface.Cycle.Load
import NginxInterface.Template.Ssl

/-! # The blocks of an application

What nginx makes of the blocks that are rendered for an application: a server that passes
everything on, and the upstream it passes it on to. The upstream is known to nginx from the
`proxy_pass` before its block comes.
-/

namespace NginxInterface

open Js ConfFile Upstream Foundation

variable {N : Type} [Number N]

/-! ## Applications -/

/-- The balancing method as the template prints it. Only the http block leaves out a missing
one. -/
def Entry.method (mode : Mode) (entry : Entry N) : Word :=
  match mode with
  | .http => if entry.balance.truthy then valueWord entry.balance else "round_robin".toList
  | .stream => valueWord entry.balance

def appDirectives (mode : Mode) (app : String × Entry N) : List Directive :=
  let upstream := upstreamDirectives mode (app.2.method mode) app.2.instances.items
  match mode with
  | .http =>
      httpDirectives app.1.toList (valueWord (serverNameValue app.2))
        (httpListenDirectives app.1 app.2) upstream
  | .stream => streamDirectives app.1.toList (valueWord app.2.port) upstream

def appPort (app : String × Entry N) : Nat := numberOf app.2.port

/-- nginx takes the blocks of the application if they stand alone. -/
structure AppUsable (mode : Mode) (app : String × Entry N) : Prop where
  ssl : mode = .http → app.2.ssl = none
  port : PortRange (appPort app)
  method : app.2.method mode ∈ methodNames mode
  instances : ∀ item ∈ app.2.instances.items, item.Usable
  primary : ∃ item ∈ app.2.instances.items, item.isBackup mode = false

theorem appUsable_iff {mode : Mode} {app : String × Entry N} :
    AppUsable mode app ↔ (mode = .http → app.2.ssl = none) ∧ (PortRange (appPort app) ∧
      (app.2.method mode ∈ methodNames mode ∧ ∀ item ∈ app.2.instances.items, item.Usable) ∧
        app.2.instances.items ≠ []) ∧
      ∃ item ∈ app.2.instances.items, item.isBackup mode = false := by
  constructor
  · intro h
    obtain ⟨item, hitem, -⟩ := h.primary
    exact ⟨h.ssl, ⟨h.port, ⟨h.method, h.instances⟩, List.ne_nil_of_mem hitem⟩, h.primary⟩
  · rintro ⟨hssl, ⟨hport, ⟨hmethod, hinstances⟩, -⟩, hprimary⟩
    exact ⟨hssl, hport, hmethod, hinstances, hprimary⟩

instance (mode : Mode) (app : String × Entry N) : Decidable (AppUsable mode app) :=
  have : Decidable (app.2.ssl = none) := decidable_of_iff _ Option.isNone_iff_eq_none
  have : Decidable (app.2.method mode ∈ methodNames mode) :=
    decidable_of_iff _ List.contains_iff_mem
  decidable_of_iff _ appUsable_iff.symm

/-- nginx does not tell the names of two upstreams apart by their case. -/
def SameName (first second : String × Entry N) : Prop :=
  Cycle.sameHost first.1.toList second.1.toList = true

instance (first second : String × Entry N) : Decidable (SameName first second) :=
  inferInstanceAs (Decidable (_ = true))

/-- A number without sign, point and exponent. -/
def Js.Value.Natural (value : Value N) : Prop :=
  ∃ n, value = .num n ∧ (boundedAtoi (Number.toText n)).isSome = true

/-- The values of the entry have the types that they are documented with, but a balancing
method may be missing. -/
structure Entry.Plain (entry : Entry N) : Prop where
  port : entry.port.Natural
  balance : entry.balance = .null ∨ ∃ method, entry.balance = .str method ∧ Name method
  instances : ∃ items, entry.instances = .list items ∧ ∀ item ∈ items, item.Documented
  serverName : entry.serverName = .undefined
  ssl : ∀ ssl, entry.ssl = some ssl → ssl.cert.IsWord ∧ ssl.key.IsWord

theorem Entry.Plain.worded {entry : Entry N} (h : entry.Plain) : entry.Worded where
  port := by
    obtain ⟨n, hn, -⟩ := h.port
    exact Value.isWord_of_number ⟨n, hn⟩
  balance := by
    rcases h.balance with hnull | ⟨method, hmethod, hname⟩
    · exact Or.inl (by rw [hnull]; rfl)
    · exact Or.inr ⟨method, hmethod, hname.plainWord⟩
  instances := by
    obtain ⟨items, hinstances, hitems⟩ := h.instances
    exact ⟨items, hinstances, fun item hitem => (hitems item hitem).worded⟩
  serverName := Or.inl (by rw [h.serverName]; rfl)
  ssl := h.ssl

theorem Js.Value.Natural.boundedAtoi {value : Value N} (h : value.Natural) :
    ConfFile.boundedAtoi (valueWord value) = some (numberOf value) := by
  obtain ⟨n, rfl, hsome⟩ := h
  obtain ⟨k, hk⟩ := Option.isSome_iff_exists.mp hsome
  have hword : valueWord (.num n) = Number.toText n := rfl
  rw [numberOf, hword, hk, Option.getD_some]

theorem all_inAuthority {text : Text} (h : ∀ c ∈ text, ordinary c = true) :
    text.all inAuthority = true := by
  refine List.all_eq_true.mpr fun c hc => ?_
  have hslash : c ≠ '/' := ordinary_ne (h c hc) (by decide)
  have hquery : c ≠ '?' := ordinary_ne (h c hc) (by decide)
  simp [inAuthority, hslash, hquery]

theorem Instance.Documented.inAuthority {item : Instance N} (h : item.Documented) :
    (valueWord item.port).all ConfFile.inAuthority = true := by
  obtain ⟨n, hn⟩ := h.port
  have hword : valueWord item.port = Number.toText n := by rw [hn]; rfl
  rw [hword]
  exact all_inAuthority (number_ordinary n)

theorem Entry.Plain.ports {entry : Entry N} (h : entry.Plain) :
    ∀ item ∈ entry.instances.items, (valueWord item.port).all ConfFile.inAuthority = true := by
  obtain ⟨items, hinstances, hitems⟩ := h.instances
  rw [hinstances]
  exact fun item hitem => (hitems item hitem).inAuthority

namespace Cycle

/-! ## Handlers -/

section Handlers

variable {State : Type} {build : Build} {context : Context} {commands : List (Command State)}
  {state : State}

theorem contextParse_append {front back : List Directive} {middle : State}
    (h : contextParse build context commands state front = .ok middle) :
    contextParse build context commands state (front ++ back) =
      contextParse build context commands middle back := by
  unfold contextParse at h ⊢
  rw [List.foldlM_append, h]
  rfl

theorem contextParse_singleton (directive : Directive) :
    contextParse build context commands state [directive] =
      contextHandler build context commands state directive := by
  unfold contextParse
  rw [List.foldlM_cons]
  exact bind_pure _

/-- Directives of other commands leave the state alone. -/
theorem contextParse_others {directives : List Directive}
    (hnames : ∀ directive ∈ directives, directive.name ∉ commands.map Command.name)
    (hothers : ∀ directive ∈ directives, build.others context directive = .ok ()) :
    contextParse build context commands state directives = .ok state := by
  induction directives with
  | nil => rfl
  | cons directive rest ih =>
      rw [List.forall_mem_cons] at hnames hothers
      have hnone : commands.find? (fun command => decide (command.name = directive.name)) =
          none := by
        refine List.find?_eq_none.mpr fun command hcommand hname => hnames.1 ?_
        exact List.mem_map.mpr ⟨command, hcommand, of_decide_eq_true hname⟩
      rw [contextParse, List.foldlM_cons, contextHandler, hnone, hothers.1]
      exact ih hnames.2 hothers.2

end Handlers

/-! ## Upstreams by name -/

section Adding

variable {mode : Mode} {u : Url} {create : Bool} {upstreams : List UpstreamConf}

theorem upstreamAdd_fresh (h : ∀ uscf ∈ upstreams, sameHost uscf.host u.host = false) :
    upstreamAdd mode u create upstreams =
      .ok (upstreams ++ [newUpstream u create], upstreams.length) := by
  induction upstreams with
  | nil => rfl
  | cons uscf rest ih =>
      rw [List.forall_mem_cons] at h
      rw [upstreamAdd, h.1, Bool.not_false, if_pos rfl, ih h.2]
      rfl

/-- An upstream whose block has come. -/
def Complete (uscf : UpstreamConf) : Prop :=
  uscf.created = true ∧ uscf.port = 0

/-- A `proxy_pass` to an upstream whose block has come changes nothing. -/
theorem upstreamAdd_complete (hall : ∀ uscf ∈ upstreams, Complete uscf) (hno : u.noPort = true)
    (hport : mode = .stream → u.port = 0)
    (h : ∃ uscf ∈ upstreams, sameHost uscf.host u.host = true) :
    ∃ index, upstreamAdd mode u false upstreams = .ok (upstreams, index) := by
  induction upstreams with
  | nil => simp at h
  | cons uscf rest ih =>
      rw [List.forall_mem_cons] at hall
      obtain ⟨⟨hcreated, hzero⟩, hall⟩ := hall
      unfold upstreamAdd
      by_cases hsame : sameHost uscf.host u.host = true
      · have hdiffer : portsDiffer mode uscf u = false := by
          cases mode with
          | http => simp [portsDiffer, hzero]
          | stream => simp [portsDiffer, hzero, hport rfl]
        exact ⟨0, by simp [hsame, hno, hdiffer]⟩
      · rw [List.exists_mem_cons_iff] at h
        obtain ⟨index, hindex⟩ := ih hall (h.resolve_left hsame)
        exact ⟨index + 1, by simp [hsame, hindex, Except.map]⟩

/-- A second block is refused. -/
theorem upstreamAdd_duplicate (hall : ∀ uscf ∈ upstreams, Complete uscf)
    (h : ∃ uscf ∈ upstreams, sameHost uscf.host u.host = true) :
    upstreamAdd mode u true upstreams = .error (.message "duplicate upstream" u.host) := by
  induction upstreams with
  | nil => simp at h
  | cons uscf rest ih =>
      rw [List.forall_mem_cons] at hall
      unfold upstreamAdd
      by_cases hsame : sameHost uscf.host u.host = true
      · simp [hsame, hall.1.1]
      · rw [List.exists_mem_cons_iff] at h
        simp [hsame, ih hall.2 (h.resolve_left hsame), Except.map]

/-- The block of an upstream that is known only from the `proxy_pass` right before it. -/
theorem upstreamAdd_create {uscf : UpstreamConf} {key : Word}
    (hfresh : ∀ other ∈ upstreams, sameHost other.host key = false) (hhost : uscf.host = key)
    (hcreated : uscf.created = false) (hno : uscf.noPort = true)
    (hport : mode = .stream → uscf.port = 0) :
    upstreamAdd mode { url := [], host := key, port := 0, noPort := true } true
        (upstreams ++ [uscf]) =
      .ok (upstreams ++ [createUpstream mode uscf], upstreams.length) := by
  induction upstreams with
  | nil =>
      cases mode with
      | http => simp [upstreamAdd, hhost, sameHost, hcreated, hno, portsDiffer]
      | stream => simp [upstreamAdd, hhost, sameHost, hcreated, hno, portsDiffer, hport rfl]
  | cons other rest ih =>
      rw [List.forall_mem_cons] at hfresh
      rw [List.cons_append, upstreamAdd, hfresh.1, Bool.not_false, if_pos rfl, ih hfresh.2]
      rfl

end Adding

/-! ## Passing on to an application -/

section Passing

variable {build : Build} {mode : Mode} {options : UrlOptions} {upstreams : List UpstreamConf}
  {appKey : String}

/-- Nothing has been passed on to the application yet. -/
def Fresh (upstreams : List UpstreamConf) (key : Word) : Prop :=
  ∀ uscf ∈ upstreams, sameHost uscf.host key = false

theorem not_fresh_iff {key : Word} :
    ¬Fresh upstreams key ↔ ∃ uscf ∈ upstreams, sameHost uscf.host key = true := by
  simp [Fresh]

theorem hasVariables_name (hkey : Name appKey) : hasVariables appKey.toList = false := by
  have hdollar : '$' ∉ appKey.toList := fun hmem =>
    ordinary_ne (hkey.ordinary '$' hmem) (by decide) rfl
  simpa [hasVariables] using hdollar

/-- The address of an application is its name. -/
theorem parseInetUrl_appKey (build : Build) (hkey : Name appKey) (hlisten : options.listen = false)
    (hresolve : options.noResolve = true) :
    ∃ u, parseInetUrl build.resolve options appKey.toList = .ok u ∧ u.host = appKey.toList ∧
      u.noPort = true ∧ u.port = options.defaultPort := by
  have hne : appKey.toList ≠ [] := fun hnil => hkey.1 (String.toList_eq_nil_iff.mp hnil)
  have hcolon : ':' ∉ appKey.toList := fun hmem =>
    ordinary_ne (hkey.ordinary ':' hmem) (by decide) rfl
  exact parseInetUrl_name build.resolve hlisten hresolve hne (all_inAuthority hkey.ordinary) hcolon

theorem upstreamTarget_fresh (hkey : Name appKey) (hlisten : options.listen = false)
    (hresolve : options.noResolve = true) (hfresh : Fresh upstreams appKey.toList) :
    ∃ u : Url, u.host = appKey.toList ∧ u.noPort = true ∧ u.port = options.defaultPort ∧
      upstreamTarget build mode options appKey.toList upstreams =
        .ok (upstreams ++ [newUpstream u false], .upstream upstreams.length) := by
  obtain ⟨u, hread, hhost, hno, hport⟩ := parseInetUrl_appKey build hkey hlisten hresolve
  refine ⟨u, hhost, hno, hport, ?_⟩
  rw [upstreamTarget, hread]
  dsimp only
  rw [upstreamAdd_fresh (hhost ▸ hfresh)]
  rfl

theorem upstreamTarget_known (hkey : Name appKey) (hlisten : options.listen = false)
    (hresolve : options.noResolve = true) (hport : mode = .stream → options.defaultPort = 0)
    (hall : ∀ uscf ∈ upstreams, Complete uscf) (hknown : ¬Fresh upstreams appKey.toList) :
    ∃ target, upstreamTarget build mode options appKey.toList upstreams =
      .ok (upstreams, target) := by
  obtain ⟨u, hread, hhost, hno, hdefault⟩ := parseInetUrl_appKey build hkey hlisten hresolve
  obtain ⟨index, hadd⟩ := upstreamAdd_complete hall hno (fun hmode => hdefault.trans (hport hmode))
    (hhost ▸ not_fresh_iff.mp hknown)
  refine ⟨.upstream index, ?_⟩
  rw [upstreamTarget, hread]
  dsimp only
  rw [hadd]
  rfl

/-- The upstream block that follows. -/
theorem accepts_upstreamBlock {u : Url} (hfresh : Fresh upstreams appKey.toList)
    (hhost : u.host = appKey.toList) (hno : u.noPort = true) (hport : mode = .stream → u.port = 0)
    (method : Word) {items : List (Instance N)}
    (hports : ∀ item ∈ items, (valueWord item.port).all inAuthority = true) :
    Accepts (upstreamBlock build mode (upstreams ++ [newUpstream u false])
        ["upstream".toList, appKey.toList] (upstreamDirectives mode method items))
      ((method ∈ methodNames mode ∧ ∀ item ∈ items, item.Usable) ∧ items ≠ [])
      (upstreams ++ [upstreamOf mode appKey.toList method items]) := by
  have hcreate := @upstreamAdd_create mode _ (newUpstream u false) _ hfresh hhost rfl hno hport
  have huscf : { createUpstream mode (newUpstream u false) with servers := none } =
      ({ host := appKey.toList, created := true, port := 0, noPort := true } : UpstreamConf) := by
    cases mode with
    | http => simp [createUpstream, newUpstream, hhost, hno]
    | stream => simp [createUpstream, newUpstream, hhost, hno, hport rfl]
  unfold upstreamBlock
  refine (Accepts.bind (.of_eq_ok hcreate) fun _ => ?_).congr (iff_of_eq (true_and _))
  dsimp only
  rw [List.getElem?_concat_length]
  refine ((accepts_upstreamBody method hports huscf).bind fun _ => .of_eq_ok ?_).congr
    (iff_of_eq (and_true _))
  rw [List.set_append_right _ _ (Nat.le_refl _), Nat.sub_self]
  rfl

/-- A block for a name that has one already. -/
theorem refused_upstreamBlock (hall : ∀ uscf ∈ upstreams, Complete uscf)
    (hknown : ¬Fresh upstreams appKey.toList) (body : List Directive)
    (result : List UpstreamConf) :
    upstreamBlock build mode upstreams ["upstream".toList, appKey.toList] body ≠ .ok result := by
  have hduplicate := @upstreamAdd_duplicate mode
    { url := [], host := appKey.toList, port := 0, noPort := true } _ hall (not_fresh_iff.mp hknown)
  have hadd : Accepts (upstreamAdd mode
      { url := [], host := appKey.toList, port := 0, noPort := true } true upstreams) False
      ([], 0) :=
    .of_refused (fun _ hok => by cases hduplicate.symm.trans hok) id
  have hblock : Accepts (upstreamBlock build mode upstreams ["upstream".toList, appKey.toList] body)
      (False ∧ True) [] := hadd.bind False.elim
  exact hblock.ne_ok And.left result

end Passing

/-! ## Ports -/

/-- A port to listen on. -/
theorem accepts_listenUrl (resolve : Resolver) {options : UrlOptions}
    (hlisten : options.listen = true) {value : Value N} (hvalue : value.Natural) :
    Accepts (parseInetUrl resolve options (valueWord value)) (PortRange (numberOf value))
      { url := valueWord value, port := numberOf value, wildcard := true } := by
  have hread := parseInetUrl_listen resolve hlisten hvalue.boundedAtoi
  have hnumber := portNumber_numberOf value
  by_cases hrange : PortRange (numberOf value)
  · rw [if_pos hrange] at hnumber
    rw [hnumber] at hread
    exact (Accepts.of_eq_ok hread).congr (iff_of_true trivial hrange)
  · rw [if_neg hrange] at hnumber
    rw [hnumber] at hread
    exact .of_refused (fun _ hok => by cases hread.symm.trans hok) hrange

end Cycle

end NginxInterface
