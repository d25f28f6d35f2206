import NginxInterface.Template.Directives

/-! # Entries made of words

An entry whose values nginx reads as words is printed as the directives it stands
for. `httpEntryDirectives` and `streamEntryDirectives` list them.
-/

namespace NginxInterface

open Foundation Js Ejs ConfFile

variable {N : Type} [Number N]

/-! ## What an entry says -/

/-- The word for a value that converts to text. -/
def valueWord (value : Value N) : Word :=
  match value.toText with
  | .ok text => text
  | .error _ => []

def weightWords (item : Instance N) : List Word :=
  if item.weight.truthy then ["weight=".toList ++ valueWord item.weight] else []

def Instances.items : Instances N → List (Instance N)
  | .list items => items
  | .other _ => []

/-- A balancing method is a directive of its own. Without a method, or with the
default one, there is none. -/
def balanceDirectives (balance : Value N) : List Directive :=
  if balance.truthy && valueWord balance ≠ "round_robin".toList then
    [.simple [valueWord balance]]
  else []

def streamEntryDirectives (appKey : String) (r : Entry N) : List Directive :=
  streamDirectives appKey.toList (valueWord r.port) <|
    balanceDirectives r.balance ++ r.instances.items.map fun item =>
      serverDirective (instanceAddress (valueWord item.port))
        (streamParameters (weightWords item) item)

def httpListenDirectives (appKey : String) (r : Entry N) : List Directive :=
  match r.ssl with
  | some ssl => sslDirectives (valueWord r.port) (valueWord ssl.cert) (valueWord ssl.key)
  | none => listenDirectives appKey.toList (valueWord r.port)

def httpEntryDirectives (appKey : String) (r : Entry N) : List Directive :=
  httpDirectives appKey.toList (valueWord (serverNameValue r)) (httpListenDirectives appKey r) <|
    balanceDirectives r.balance ++ r.instances.items.map fun item =>
      serverDirective (instanceAddress (valueWord item.port)) (weightWords item)

/-! ## Values that are words -/

namespace Js.Value

/-- The value is printed as a word of its own. -/
def IsWord (value : Value N) : Prop :=
  value.escapeXML = .ok (valueWord value) ∧ starts (valueWord value) = true

/-- The value is printed as the rest of a word. -/
def IsPart (value : Value N) : Prop :=
  value.escapeXML = .ok (valueWord value) ∧ stays false (valueWord value) = true

theorem IsWord.isPart {value : Value N} (h : value.IsWord) : value.IsPart :=
  ⟨h.1, stays_of_starts h.2⟩

/-- A value that is neither null nor undefined is printed as its text. -/
theorem IsPart.toText {value : Value N} (h : value.IsPart) (htruthy : value.truthy = true) :
    value.toText = .ok (valueWord value) ∧ escapeText (valueWord value) = valueWord value := by
  have hnullish : value.nullish = false := by
    cases value <;> simp_all [truthy, nullish]
  have hescape := h.1
  rw [escapeXML, hnullish, if_neg (by simp)] at hescape
  cases htext : value.toText with
  | error fault =>
      rw [htext] at hescape
      cases hescape
  | ok text =>
      rw [htext] at hescape
      have hword : valueWord value = text := by rw [valueWord, htext]
      rw [hword] at hescape ⊢
      exact ⟨rfl, Except.ok.inj hescape⟩

theorem isWord_str {s : String} (h : PlainWord s.toList) : (Value.str s : Value N).IsWord :=
  ⟨congrArg Except.ok h.2, h.1⟩

theorem isPart_str {s : String} (h : PlainPart s.toList) : (Value.str s : Value N).IsPart :=
  ⟨congrArg Except.ok h.2, h.1⟩

theorem isWord_of_number {value : Value N} (h : ∃ n, value = .num n) : value.IsWord := by
  obtain ⟨n, rfl⟩ := h
  exact ⟨congrArg Except.ok (escapeText_number n),
    (plainWord_of_ordinary (Number.toText_ne_nil n) (number_ordinary n)).1⟩

end Js.Value

structure Instance.Worded (item : Instance N) : Prop where
  port : item.port.IsPart
  weight : item.weight.truthy = false ∨ item.weight.IsPart

structure Entry.Worded (entry : Entry N) : Prop where
  port : entry.port.IsWord
  balance : entry.balance.truthy = false ∨
    ∃ method, entry.balance = .str method ∧ PlainWord method.toList
  instances : ∃ items, entry.instances = .list items ∧ ∀ item ∈ items, item.Worded
  serverName : entry.serverName.truthy = false ∨ entry.serverName.IsWord
  ssl : ∀ ssl, entry.ssl = some ssl → ssl.cert.IsWord ∧ ssl.key.IsWord

theorem PlainWord.appKeyText {appKey : String} (h : PlainWord appKey.toList) :
    appKeyText appKey = appKey.toList := h.2

theorem PlainWord.ne_empty {name : String} (h : PlainWord name.toList) : name ≠ "" := by
  rintro rfl
  exact absurd h.1 (by decide)

/-! ## Servers -/

theorem weightText_worded {item : Instance N} (h : item.Worded) :
    weightText item = .ok ((weightWords item).flatMap fun word => ' ' :: word) ∧
      ∀ word ∈ weightWords item, starts word = true := by
  by_cases htruthy : item.weight.truthy = true
  · have hpart := h.weight.resolve_left (by simp [htruthy])
    obtain ⟨htext, hescape⟩ := hpart.toText htruthy
    have hwords : weightWords item = ["weight=".toList ++ valueWord item.weight] := if_pos htruthy
    rw [weightText, if_pos htruthy, htext, hwords]
    refine ⟨?_, fun word hmem => ?_⟩
    · have hblank : Value.escapeText " weight=".toList = " weight=".toList := by decide +kernel
      simp only [Except.map, Value.escapeText, List.flatMap_append] at hblank hescape ⊢
      rw [hblank, hescape, List.flatMap_cons, List.flatMap_nil, List.append_nil]
      rfl
    · rw [List.mem_singleton.mp hmem]
      exact starts_append (by decide +kernel) hpart.2
  · simp [weightText, weightWords, htruthy]

theorem streamServer_worded {item : Instance N} (h : item.Worded) :
    Prints (streamServer item) .start
      (serverDirective (instanceAddress (valueWord item.port))
        (streamParameters (weightWords item) item)).tokens .start := by
  obtain ⟨hweight, hwords⟩ := weightText_worded h
  exact streamServer_prints h.port.1 h.port.2 hweight hwords

theorem httpServer_worded {item : Instance N} (h : item.Worded) :
    Prints (httpServer item) .start
      (serverDirective (instanceAddress (valueWord item.port)) (weightWords item)).tokens
      .start := by
  obtain ⟨hweight, hwords⟩ := weightText_worded h
  exact httpServer_prints h.port.1 h.port.2 hweight hwords

omit [Number N] in
/-- The loop over the instances prints the directives of its items. -/
theorem eachInstance_prints {body : Instance N → Except Fault Text}
    {directive : Instance N → Directive} {instances : Instances N} {items : List (Instance N)}
    (hinstances : instances = .list items)
    (h : ∀ item ∈ items, Prints (body item) .start (directive item).tokens .start) :
    Prints (eachInstance body instances) .start
      (tokensOf (instances.items.map directive)) .start := by
  rw [hinstances, Instances.items, List.map_eq_flatMap, tokensOf_flatMap]
  refine Prints.map fun item hitem => ?_
  rw [tokensOf_cons, tokensOf_nil, List.append_nil]
  exact h item hitem

/-! ## Balancing methods -/

theorem balanceDirectives_str {method : String} (h : PlainWord method.toList) :
    balanceDirectives (.str method : Value N) =
      if method = "round_robin" then [] else [.simple [method.toList]] := by
  by_cases hdefault : method = "round_robin"
  · rw [if_pos hdefault, hdefault]
    rfl
  · rw [if_neg hdefault, balanceDirectives, if_pos]
    · rfl
    · have htext : method.toList ≠ "round_robin".toList := mt String.toList_inj.mp hdefault
      simp only [Bool.and_eq_true, decide_eq_true_eq]
      exact ⟨by simp [Value.truthy, h.ne_empty], htext⟩

theorem streamBalance_prints {r : Entry N} {method : String} (hmethod : r.balance = .str method)
    (h : PlainWord method.toList) :
    Prints (streamBalance r) .start (tokensOf (balanceDirectives r.balance)) .start := by
  rw [hmethod, balanceDirectives_str h]
  by_cases hdefault : method = "round_robin"
  · refine ⟨[], ?_, by rw [if_pos hdefault]; exact Reads.nil _⟩
    simp [streamBalance, hmethod, hdefault, bind, Except.bind, pure, Except.pure]
  · refine ⟨_, ?_, by rw [if_neg hdefault]; exact h.reads_statement⟩
    simp [streamBalance, hmethod, hdefault, Value.toText, bind, Except.bind, pure, Except.pure]

/-- Unlike the stream block, the http block also takes a missing method. -/
theorem httpBalance_worded {r : Entry N} (h : r.Worded) :
    Prints (httpBalance r) .start (tokensOf (balanceDirectives r.balance)) .start := by
  rcases h.balance with hfalsy | ⟨method, hmethod, hplain⟩
  · obtain ⟨same, hsame⟩ := Value.looseEq_of_printable (Value.printable_of_falsy hfalsy)
      (Value.printable_str "round_robin")
    rw [httpBalance, hsame, balanceDirectives, hfalsy]
    cases same <;> exact .ok (Reads.nil _)
  · rw [hmethod, balanceDirectives_str hplain]
    by_cases hdefault : method = "round_robin"
    · refine ⟨[], ?_, by rw [if_pos hdefault]; exact Reads.nil _⟩
      simp [httpBalance, hmethod, hdefault, bind, Except.bind, pure, Except.pure]
    · refine ⟨_, ?_, by rw [if_neg hdefault]; exact hplain.reads_statement⟩
      simp [httpBalance, hmethod, hdefault, hplain.ne_empty, Value.truthy, Value.toText, bind,
        Except.bind, pure, Except.pure]

/-! ## Applications -/

theorem serverNameValue_isWord {r : Entry N} (h : r.Worded) : (serverNameValue r).IsWord := by
  unfold serverNameValue
  split
  next htruthy => exact h.serverName.resolve_left (by simp [htruthy])
  · exact Value.isWord_str (by decide)

theorem httpListen_worded {appKey : String} {r : Entry N} (hkey : PlainWord appKey.toList)
    (h : r.Worded) :
    Prints (httpListen appKey r) .start (tokensOf (httpListenDirectives appKey r)) .start := by
  have hstarts : starts (appKeyText appKey) = true := hkey.appKeyText ▸ hkey.1
  cases hssl : r.ssl with
  | none =>
      have hprints := httpListenPlain_prints hstarts h.port.1 h.port.2
      rw [hkey.appKeyText] at hprints
      simpa only [httpListen, httpListenDirectives, hssl] using hprints
  | some ssl =>
      obtain ⟨hcert, hsslKey⟩ := h.ssl ssl hssl
      simpa only [httpListen, httpListenDirectives, hssl] using
        httpListenSsl_prints h.port.1 h.port.2 hcert.1 hcert.2 hsslKey.1 hsslKey.2

theorem httpApp_worded {appKey : String} {r : Entry N} (hkey : PlainWord appKey.toList)
    (h : r.Worded) :
    Prints (httpApp appKey r) .start (tokensOf (httpEntryDirectives appKey r)) .start := by
  obtain ⟨items, hinstances, hitems⟩ := h.instances
  have hstarts : starts (appKeyText appKey) = true := hkey.appKeyText ▸ hkey.1
  have hname := serverNameValue_isWord h
  have hprints := httpApp_prints hstarts hname.1 hname.2 (httpListen_worded hkey h)
    (httpBalance_worded h)
    (eachInstance_prints hinstances fun item hitem => httpServer_worded (hitems item hitem))
  rw [hkey.appKeyText] at hprints
  exact hprints.cast (by
    simp [httpEntryDirectives, httpDirectives, tokensOf_append, Directive.tokens])

/-- The comment before an application of the stream table ends with its line, and the
stream block prints any method. -/
theorem streamApp_worded {appKey : String} {r : Entry N} (hkey : PlainWord appKey.toList)
    (hline : '\n' ∉ appKey.toList) {method : String} (hmethod : r.balance = .str method)
    (hplain : PlainWord method.toList) (h : r.Worded) :
    Prints (streamApp appKey r) .start (tokensOf (streamEntryDirectives appKey r)) .start := by
  obtain ⟨items, hinstances, hitems⟩ := h.instances
  have hstarts : starts (appKeyText appKey) = true := hkey.appKeyText ▸ hkey.1
  have hprints := streamApp_prints hstarts (hkey.appKeyText ▸ hline) h.port.1 h.port.2
    (streamBalance_prints hmethod hplain)
    (eachInstance_prints hinstances fun item hitem => streamServer_worded (hitems item hitem))
  rwa [hkey.appKeyText] at hprints

end NginxInterface
