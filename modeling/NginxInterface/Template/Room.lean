import NginxInterface.ConfFile.Gauge
import NginxInterface.Template.Worded

/-! # Room for a rendered file

Which rendered files fit into the buffer of the tokenizer. Everything that the template prints is
short apart from the names of the applications: the longest that the tokenizer has to hold are the
comment with the name of a stream application and the address `http://` with the name of an http
application.
-/

namespace NginxInterface

open Foundation Js Ejs ConfFile

/-- The part renders, and the tokenizer gets through its text exactly if `p`. -/
def Fills (part : Except Fault Text) (scan : Scan) (held : Nat) (p : Prop) (final : Scan)
    (kept : Nat) : Prop :=
  ∃ text, part = .ok text ∧ Takes scan held text p final kept

section Parts

variable {part : Except Fault Text} {rest : List (Except Fault Text)} {scan middle final : Scan}
  {held between kept : Nat} {p q : Prop}

theorem Fills.nil : Fills (cat []) scan held True scan held := ⟨[], rfl, .nil⟩

theorem Fills.congr (h : Fills part scan held p final kept) (hp : p ↔ q) :
    Fills part scan held q final kept := propext hp ▸ h

theorem Fills.mono (h : Fills part scan held p final kept) {less more : Nat} (hless : less ≤ held)
    (hmore : kept ≤ more) : Fills part scan less p final more := by
  obtain ⟨text, htext, htakes⟩ := h
  exact ⟨text, htext, htakes.mono hless hmore⟩

theorem Fills.cons (hpart : Fills part scan held p middle between)
    (hrest : Fills (cat rest) middle between q final kept) :
    Fills (cat (part :: rest)) scan held (p ∧ q) final kept := by
  obtain ⟨head, rfl, hhead⟩ := hpart
  obtain ⟨tail, htail, htakes⟩ := hrest
  refine ⟨head ++ tail, ?_, hhead.append htakes⟩
  rw [cat_ok_cons, htail]
  rfl

/-- A part for which there is always room. -/
theorem Fills.free (hpart : Fills part scan held True middle between)
    (hrest : Fills (cat rest) middle between q final kept) :
    Fills (cat (part :: rest)) scan held q final kept :=
  (hpart.cons hrest).congr (Iff.of_eq (true_and q))

/-- A loop whose body resets what is in use. -/
theorem Fills.map {Item : Type} {items : List Item} {body : Item → Except Fault Text}
    {q : Item → Prop} (hkept : kept ≤ held)
    (h : ∀ item ∈ items, Fills (body item) scan held (q item) scan kept) :
    Fills (cat (items.map body)) scan held (∀ item ∈ items, q item) scan held := by
  induction items with
  | nil => exact Fills.nil.congr (by simp)
  | cons item rest ih =>
      rw [List.map_cons]
      have hitem := (h item List.mem_cons_self).mono (Nat.le_refl held) hkept
      exact (hitem.cons (ih fun other hother => h other (List.mem_cons_of_mem _ hother))).congr
        List.forall_mem_cons.symm

end Parts

/-! ## Segments and words -/

section Segments

variable {before after : Tag} {chars : Text} {rest : List (Except Fault Text)}
  {scan final : Scan} {held kept : Nat} {p q : Prop}

theorem fills_segment (final : Scan) (kept : Nat)
    (h : scan.gaugeText held (slurp before chars after) = some (final, kept)) :
    Fills (.ok (segment before (String.ofList chars) after)) scan held True final kept := by
  rw [segment_ofList]
  exact ⟨_, rfl, takes_of_gaugeText h⟩

/-- A word and a segment that ends it. -/
theorem Fills.word {word tail : Text} {args : List Word} (count : Nat) (middle : Scan)
    (between : Nat)
    (hword : Takes (.words args) held (word ++ tail) p .start 0)
    (hmark : (slurp before chars after).take count = tail)
    (hsegment : Scan.start.gaugeText 0 ((slurp before chars after).drop count) =
      some (middle, between))
    (hrest : Fills (cat rest) middle between q final kept) :
    Fills (cat (.ok word :: .ok (segment before (String.ofList chars) after) :: rest))
      (.words args) held (p ∧ q) final kept := by
  obtain ⟨text, htext, htakes⟩ := hrest
  refine ⟨word ++ tail ++ ((slurp before chars after).drop count ++ text), ?_,
    hword.append (((takes_of_gaugeText hsegment).append htakes).congr (Iff.of_eq (true_and q)))⟩
  rw [cat_ok_cons, cat_ok_cons, htext, segment_ofList, ← hmark]
  simp only [Except.map, List.append_assoc]
  rw [← List.append_assoc (List.take _ _), List.take_append_drop]

theorem Fills.statement {word : Text} {args : List Word} (middle : Scan) (between : Nat)
    (hword : starts word = true) (hheld : held < confBuffer)
    (hmark : (slurp before chars after).take 1 = [';'])
    (hsegment : Scan.start.gaugeText 0 ((slurp before chars after).drop 1) =
      some (middle, between))
    (hrest : Fills (cat rest) middle between q final kept) :
    Fills (cat (.ok word :: .ok (segment before (String.ofList chars) after) :: rest))
      (.words args) held (size word < confBuffer ∧ q) final kept :=
  .word 1 middle between (takes_statement hword args hheld) hmark hsegment hrest

end Segments

/-! ## Upstream blocks -/

variable {N : Type} [Number N]

/-- There is room for the line of a server if its words are short. -/
theorem takes_server {port : Text} (hport : stays false port = true) (hsize : size port < 4000)
    {parameters : List Word}
    (hparameters : ∀ parameter ∈ parameters,
      starts parameter = true ∧ size parameter + 1 < confBuffer) :
    Takes .start 1000 (segment .slurp "\n      server 127.0.0.1:" .plain ++ (port ++
        (parameters.flatMap (fun word => ' ' :: word) ++ segment .plain ";\n      " .slurp)))
      True .start 1 := by
  have haddress : starts (instanceAddress port) = true :=
    have hvariable : wordVariable "127.0.0.1:".toList = false := rfl
    starts_append rfl (hvariable ▸ hport)
  have hshort : size (instanceAddress port) + 1 < confBuffer := by
    have hfront : size "127.0.0.1:".toList = 10 := rfl
    have hlength : size (instanceAddress port) = 10 + size port :=
      (size_append _ port).trans (congrArg (· + size port) hfront)
    unfold confBuffer
    omega
  have hopen : Takes .start 1000 "      server ".toList True (.words ["server".toList]) 7 :=
    takes_of_gaugeText rfl
  have hwords := takes_words (List.forall_mem_cons.mpr ⟨⟨haddress, hshort⟩, hparameters⟩)
    ["server".toList] (show 7 < confBuffer by decide)
  have hbreak : Takes .start 0 ['\n'] True .start 1 := takes_of_gaugeText rfl
  have hfront : segment .slurp "\n      server 127.0.0.1:" .plain =
      "      server ".toList ++ "127.0.0.1:".toList := rfl
  have hend : segment .plain ";\n      " .slurp = [';'] ++ ['\n'] := rfl
  have hassoc (front address words : Text) : front ++ address ++ (port ++ (words ++ ([';'] ++
      ['\n']))) = front ++ (address ++ port ++ (words ++ [';']) ++ ['\n']) := by
    simp only [List.append_assoc]
  rw [hfront, hend, hassoc]
  exact (hopen.append (hwords.append hbreak)).congr (by simp only [and_self])

omit [Number N] in
theorem upstreamBlock_fills {appKey : String} {balance servers : Except Fault Text}
    (hkey : starts (appKeyText appKey) = true)
    (hbalance : Fills balance .start 20 True .start 20)
    (hservers : Fills servers .start 30 True .start 30) :
    Fills (upstreamBlock appKey balance servers) .start 1000
      (size (appKeyText appKey) + 1 < confBuffer) .start 10 := by
  unfold upstreamBlock
  refine .free (fills_segment (.words ["upstream".toList]) 9 rfl) ?_
  refine .congr (.word 2 .start 7 (takes_blockStart hkey _ (by decide)) rfl rfl ?_)
    (and_true _).to_iff
  refine .free (hbalance.mono (by decide) (Nat.le_refl 20)) ?_
  refine .free (fills_segment .start 21 rfl) ?_
  refine .free (hservers.mono (by decide) (Nat.le_refl 30)) ?_
  exact .free (fills_segment .start 1 rfl)
    (Fills.nil.mono (Nat.le_refl 1) (by decide))

/-- There is room for a short balancing method. -/
theorem balance_fills {part : Except Fault Text} (h : part = .ok [] ∨ ∃ method,
    part = .ok (Value.escapeText (method ++ [';'])) ∧ PlainWord method ∧
      size method < confBuffer) : Fills part .start 20 True .start 20 := by
  rcases h with rfl | ⟨method, rfl, hplain, hsize⟩
  · exact ⟨[], rfl, .nil⟩
  · refine ⟨_, rfl, ?_⟩
    rw [hplain.escapeText_semicolon]
    exact ((takes_statement hplain.1 [] (by decide)).mono (Nat.le_refl 20) (Nat.zero_le 20)).congr
      (iff_true_intro hsize)

/-- The numbers of the instance are not printed with thousands of digits. -/
structure Instance.Short (item : Instance N) : Prop where
  port : size (valueWord item.port) < 4000
  weight : size (valueWord item.weight) < 4000

theorem Instance.Short.parameters {item : Instance N} (h : item.Short) (hworded : item.Worded) :
    ∀ word ∈ weightWords item, starts word = true ∧ size word + 1 < confBuffer := by
  intro word hmem
  refine ⟨(weightText_worded hworded).2 word hmem, ?_⟩
  unfold weightWords at hmem
  split at hmem
  · have hfront : size "weight=".toList = 7 := rfl
    have hlength : size word = 7 + size (valueWord item.weight) :=
      (congrArg size (List.mem_singleton.mp hmem)).trans
        ((size_append _ _).trans (congrArg (· + _) hfront))
    have hweight := h.weight
    unfold confBuffer
    omega
  · cases hmem

theorem streamServer_fills {item : Instance N} (h : item.Worded) (hshort : item.Short) :
    Fills (streamServer item) .start 1000 True .start 1 := by
  refine ⟨_, streamServer_eq h.port.1 (weightText_worded h).1,
    takes_server h.port.2 hshort.port fun word hmem => ?_⟩
  rcases List.mem_append.mp hmem with hweight | hbackup
  · exact hshort.parameters h word hweight
  · split at hbackup
    · rw [List.mem_singleton.mp hbackup]
      decide
    · cases hbackup

theorem httpServer_fills {item : Instance N} (h : item.Worded) (hshort : item.Short) :
    Fills (httpServer item) .start 1000 True .start 1 :=
  ⟨_, httpServer_eq h.port.1 (weightText_worded h).1,
    takes_server h.port.2 hshort.port (hshort.parameters h)⟩

omit [Number N] in
theorem eachInstance_fills {body : Instance N → Except Fault Text} {instances : Instances N}
    {items : List (Instance N)} (hinstances : instances = .list items)
    (h : ∀ item ∈ items, Fills (body item) .start 1000 True .start 1) :
    Fills (eachInstance body instances) .start 30 True .start 30 := by
  rw [hinstances, eachInstance]
  refine (Fills.map (show 1 ≤ 30 by decide) fun item hitem =>
    (h item hitem).mono (by decide) (Nat.le_refl 1)).congr ?_
  simp only [implies_true]

/-! ## Applications -/

/-- The comment with a name is held up to the comment on the next line. -/
theorem commentLine_fills {key : Text} (hline : '\n' ∉ key) {rest : List (Except Fault Text)}
    {q : Prop} {final : Scan} {kept : Nat}
    (hrest : Fills (cat rest) (.words ["listen".toList]) 10 q final kept) :
    Fills (cat (.ok (segment .plain "\n   #\n   # Auto configured backend for APP " .plain) ::
        .ok key :: .ok (segment .plain "\n   #\n   server \x7b\n      listen    " .plain) :: rest))
      .start 950 (size key + 38 < confBuffer ∧ q) final kept := by
  obtain ⟨text, htext, htakes⟩ := hrest
  have hfront : Takes .start 950 "\n   #\n   ".toList True .start 5 := takes_of_gaugeText rfl
  have hcomment : Takes .start 5
      ('#' :: (" Auto configured backend for APP ".toList ++ key ++ "\n   #".toList))
      (size key + 38 < confBuffer) .comment 1 := by
    have hauto : size " Auto configured backend for APP ".toList = 33 := rfl
    have hsize : size (" Auto configured backend for APP ".toList ++ key) = 33 + size key :=
      (size_append _ key).trans (congrArg (· + size key) hauto)
    refine (takes_comment ?_ (by decide)).congr (by omega)
    refine fun hmem => (List.mem_append.mp hmem).elim ?_ hline
    decide
  have hlisten : Takes .comment 1 "\n   server \x7b\n      listen    ".toList True
      (.words ["listen".toList]) 10 := takes_of_gaugeText rfl
  have hopen : segment .plain "\n   #\n   # Auto configured backend for APP " .plain =
      "\n   #\n   ".toList ++ '#' :: " Auto configured backend for APP ".toList := rfl
  have hend : segment .plain "\n   #\n   server \x7b\n      listen    " .plain =
      "\n   #".toList ++ "\n   server \x7b\n      listen    ".toList := rfl
  have hassoc (front auto line listen : Text) : front ++ '#' :: auto ++ (key ++ (line ++ listen ++
      text)) = front ++ ('#' :: (auto ++ key ++ line) ++ (listen ++ text)) := by
    simp only [List.append_assoc, List.cons_append]
  refine ⟨_, ?_, (hfront.append (hcomment.append (hlisten.append htakes))).congr ?_⟩
  · rw [cat_ok_cons, cat_ok_cons, cat_ok_cons, htext, hopen, hend, ← hassoc]
    rfl
  · simp only [true_and]

theorem streamApp_fills {appKey : String} {r : Entry N} {port : Text}
    (hkey : starts (appKeyText appKey) = true) (hline : '\n' ∉ appKeyText appKey)
    (hport : r.port.escapeXML = .ok port) (hword : starts port = true)
    (hshort : size port < confBuffer)
    (hbalance : Fills (streamBalance r) .start 20 True .start 20)
    (hservers : Fills (eachInstance streamServer r.instances) .start 30 True .start 30) :
    Fills (streamApp appKey r) .start 900 (size (appKeyText appKey) + 38 < confBuffer) .start
      10 := by
  -- the name is also a word of its own, which is shorter than the comment
  have hroom : (size (appKeyText appKey) + 38 < confBuffer ∧ size port < confBuffer ∧
      size (appKeyText appKey) < confBuffer ∧ size (appKeyText appKey) + 1 < confBuffer ∧ True) ↔
        size (appKeyText appKey) + 38 < confBuffer := by
    rw [and_true]
    omega
  unfold streamApp
  rw [hport]
  refine .congr ?_ hroom
  refine .free (fills_segment .start 903 rfl) ?_
  refine .mono (commentLine_fills hline ?_) (by decide) (Nat.le_refl 10)
  refine .statement (.words ["proxy_pass".toList]) 11 hword (by decide) rfl rfl ?_
  refine .statement .start 2 hkey (by decide) rfl rfl ?_
  exact ((upstreamBlock_fills hkey hbalance hservers).mono (by decide) (Nat.le_refl 10)).cons .nil

/-- The name is held together with the `http://` in front of it. -/
theorem proxyPass_fills {key : Text} (hkey : starts key = true) :
    Fills (cat [.ok (segment .plain "        proxy_pass         http://" .plain), .ok key,
        .ok (segment .plain ";\n      \x7d\n      " .slurp)])
      .start 1000 (size key + 7 < confBuffer) .start 1 := by
  have hfront : Takes .start 1000 "        proxy_pass         ".toList True
      (.words ["proxy_pass".toList]) 19 := takes_of_gaugeText rfl
  have hword : Takes (.words ["proxy_pass".toList]) 19 ("http://".toList ++ key ++ [';'])
      (size key + 7 < confBuffer) .start 0 := by
    have hvariable : wordVariable "http://".toList = false := rfl
    have hstarts : starts ("http://".toList ++ key) = true :=
      starts_append rfl (hvariable ▸ stays_of_starts hkey)
    have hhttp : size "http://".toList = 7 := rfl
    have hsize : size ("http://".toList ++ key) = 7 + size key :=
      (size_append _ key).trans (congrArg (· + size key) hhttp)
    exact (takes_statement hstarts _ (by decide)).congr (by omega)
  have hclose : Takes .start 0 "\n      \x7d\n".toList True .start 1 := takes_of_gaugeText rfl
  have hopen : segment .plain "        proxy_pass         http://" .plain =
      "        proxy_pass         ".toList ++ "http://".toList := rfl
  have hend : segment .plain ";\n      \x7d\n      " .slurp = ';' :: "\n      \x7d\n".toList := rfl
  have hassoc (front http close : Text) : front ++ http ++ (key ++ (';' :: close ++ [])) =
      front ++ (http ++ key ++ [';'] ++ close) := by
    simp only [List.append_assoc, List.append_nil, List.cons_append, List.nil_append]
  refine ⟨_, ?_, (hfront.append (hword.append hclose)).congr ?_⟩
  · rw [cat_ok_cons, cat_ok_cons, cat_ok_cons, hopen, hend, ← hassoc]
    rfl
  · simp only [true_and, and_true]

theorem httpListenPlain_fills {appKey : String} {r : Entry N} {port : Text}
    (hkey : starts (appKeyText appKey) = true) (hport : r.port.escapeXML = .ok port)
    (hword : starts port = true) (hshort : size port < confBuffer) :
    Fills (httpListenPlain appKey r) .start 1000 (size (appKeyText appKey) + 7 < confBuffer) .start
      1 := by
  unfold httpListenPlain
  rw [hport]
  refine .free (fills_segment (.words ["listen".toList]) 7 rfl) ?_
  refine .congr (.statement .start 1 hword (by decide) rfl rfl ?_)
    (and_iff_right hshort)
  iterate 10 refine .free (fills_segment .start 1 rfl) ?_
  exact (proxyPass_fills hkey).mono (by decide) (Nat.le_refl 1)

theorem httpApp_fills {appKey : String} {r : Entry N} {name : Text}
    (hkey : starts (appKeyText appKey) = true)
    (hname : (serverNameValue r).escapeXML = .ok name) (hword : starts name = true)
    (hshort : size name < confBuffer)
    (hlisten : Fills (httpListen appKey r) .start 1000
      (size (appKeyText appKey) + 7 < confBuffer) .start 1)
    (hbalance : Fills (httpBalance r) .start 20 True .start 20)
    (hservers : Fills (eachInstance httpServer r.instances) .start 30 True .start 30) :
    Fills (httpApp appKey r) .start 900 (size (appKeyText appKey) + 7 < confBuffer) .start 10 := by
  have hroom : (size name < confBuffer ∧ size (appKeyText appKey) + 7 < confBuffer ∧
      size (appKeyText appKey) + 1 < confBuffer ∧ True) ↔
        size (appKeyText appKey) + 7 < confBuffer := by
    rw [and_true]
    omega
  unfold httpApp
  rw [hname]
  refine .congr ?_ hroom
  refine .free (fills_segment .start 903 rfl) ?_
  refine .free (fills_segment (.words ["server_name".toList]) 12 rfl) ?_
  refine .statement .start 2 hword (by decide) rfl rfl ?_
  refine .cons (hlisten.mono (by decide) (Nat.le_refl 1)) ?_
  refine .free (fills_segment .start 2 rfl) ?_
  exact ((upstreamBlock_fills hkey hbalance hservers).mono (by decide) (Nat.le_refl 10)).cons .nil

/-! ## The whole file -/

theorem statusServer_fills {statusPort : Value N} {port : Text}
    (hport : statusPort.escapeXML = .ok port)
    (hword : starts port = true) (hshort : size port < confBuffer) :
    Fills (statusServer statusPort) .start 20 True .start 20 := by
  unfold statusServer
  split
  · exact ⟨[], rfl, .nil⟩
  · rw [hport]
    refine .free (fills_segment (.words ["listen".toList]) 7 rfl) ?_
    refine .congr (.statement .start 1 hword (by decide) rfl rfl ?_)
      (and_iff_right hshort)
    iterate 4 refine .free (fills_segment .start 1 rfl) ?_
    exact .free (fills_segment .start 1 rfl)
      (Fills.nil.mono (Nat.le_refl 1) (by decide))

omit [Number N] in
theorem eachApp_fills {body : String → Entry N → Except Fault Text} {table : Table N}
    {q : String → Prop}
    (h : ∀ appKey entry, table.get? appKey = some entry →
      Fills (body appKey entry) .start 900 (q appKey) .start 10) :
    Fills (eachApp body table) .start 30
      (∀ appKey entry, table.get? appKey = some entry → q appKey) .start 30 := by
  have hkeys (appKey : String) :
      appKey ∈ objectKeys table ↔ ∃ entry, table.get? appKey = some entry :=
    mem_objectKeys.trans (table.mem_keys_iff appKey)
  have hall : (∀ appKey ∈ objectKeys table, q appKey) ↔
      ∀ appKey entry, table.get? appKey = some entry → q appKey := by
    simp only [hkeys, forall_exists_index]
  refine .congr (.map (show 10 ≤ 30 by decide) fun appKey hmem => ?_) hall
  obtain ⟨entry, hentry⟩ := (hkeys appKey).mp hmem
  rw [atKey, hentry]
  exact (h appKey entry hentry).mono (by decide) (Nat.le_refl 10)

omit [Number N] in
theorem eachApp_nil_fills {body : String → Entry N → Except Fault Text} {table : Table N} {p : Prop}
    (hkeys : objectKeys table = []) (h : Fills (eachApp body table) .start 30 p .start 30)
    (held : Nat) : Fills (.ok []) .start held p .start held := by
  obtain ⟨text, htext, htakes⟩ := h
  rw [eachApp, hkeys] at htext
  cases htext
  exact Fills.congr ⟨[], rfl, .nil⟩ (iff_of_true trivial htakes.of_nil)

theorem streamBlock_fills {stream : Table N} {p : Prop}
    (h : Fills (eachApp streamApp stream) .start 30 p .start 30) :
    Fills (streamBlock stream) .start 20 p .start 20 := by
  unfold streamBlock
  split
  · refine .free (fills_segment .start 1 rfl) ?_
    refine .congr ((h.mono (by decide) (Nat.le_refl 30)).cons ?_) (and_true p).to_iff
    exact .free (fills_segment .start 1 rfl)
      (Fills.nil.mono (Nat.le_refl 1) (by decide))
  next hkeys => exact eachApp_nil_fills (by simpa using hkeys) h 20

theorem httpApps_fills {http : Table N} {p : Prop}
    (h : Fills (eachApp httpApp http) .start 30 p .start 30) :
    Fills (httpApps http) .start 30 p .start 40 := by
  unfold httpApps
  split
  · refine .free (fills_segment .start 30 rfl) ?_
    refine .congr (h.cons ?_) (and_true p).to_iff
    exact .free (fills_segment .start 31 rfl)
      (Fills.nil.mono (Nat.le_refl 31) (by decide))
  next hkeys =>
    exact (eachApp_nil_fills (by simpa using hkeys) h 30).mono (Nat.le_refl 30) (by decide)

theorem errorLog_fills {debugMode : Value N} {debug : Bool}
    (h : debugEnabled debugMode = .ok debug) :
    Fills (errorLog debugMode) .start 20 True .start 20 := by
  unfold errorLog
  rw [h]
  cases debug with
  | true => exact .mono (fills_segment .start 0 rfl) (Nat.le_refl 20) (by decide)
  | false => exact ⟨[], rfl, .nil⟩

/-- There is room for the file if there is room for its applications. -/
theorem render_fills {conf : Conf N} {debug : Bool} {p q : Prop}
    (hdebug : debugEnabled conf.debugMode = .ok debug)
    (hstream : Fills (eachApp streamApp conf.stream) .start 30 p .start 30)
    (hstatus : Fills (statusServer conf.statusPort) .start 20 True .start 20)
    (hhttp : Fills (eachApp httpApp conf.http) .start 30 q .start 30) :
    Fills (render conf) .start 0 (p ∧ q) .start 1 := by
  unfold render
  refine .free (fills_segment .start 13 rfl) ?_
  refine .free ((errorLog_fills hdebug).mono (by decide) (Nat.le_refl 20)) ?_
  refine .free (fills_segment .start 1 rfl) ?_
  refine .free (fills_segment .start 2 rfl) ?_
  refine .cons ((streamBlock_fills hstream).mono (by decide) (Nat.le_refl 20)) ?_
  refine .free (fills_segment .start 2 rfl) ?_
  refine .free (hstatus.mono (by decide) (Nat.le_refl 20)) ?_
  refine .free (fills_segment .start 21 rfl) ?_
  refine .congr (((httpApps_fills hhttp).mono (by decide) (Nat.le_refl 40)).cons ?_)
    (and_true q).to_iff
  exact .free (fills_segment .start 1 rfl) .nil

end NginxInterface
