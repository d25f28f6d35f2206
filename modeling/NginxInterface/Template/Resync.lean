import NginxInterface.ConfFile.Resync
import NginxInterface.Template.Render

/-! # The template contains every entry

Whatever the entries hold, the text of an application leaves the tokenizer where a
directive may begin, or makes it refuse the file. The values are escaped, so that
they bring no quote characters, and each application ends with the end of a block on
a line of its own.
-/

namespace NginxInterface

open Foundation Js Ejs ConfFile Scan

/-- If the part renders, its text leads from the first property to the second. -/
def PartLeads (source target : Scan → Prop) (part : Except Fault Text) : Prop :=
  ∀ text, part = .ok text → Leads source target text

variable {source middle target : Scan → Prop}

theorem PartLeads.ok {text : Text} (h : Leads source target text) :
    PartLeads source target (.ok text) := by
  rintro _ ⟨⟩
  exact h

theorem PartLeads.nil (source : Scan → Prop) : PartLeads source source (cat []) :=
  .ok (Leads.nil source)

theorem PartLeads.cons {part : Except Fault Text} {rest : List (Except Fault Text)}
    (hpart : PartLeads source middle part) (hrest : PartLeads middle target (cat rest)) :
    PartLeads source target (cat (part :: rest)) := by
  intro text htext
  obtain ⟨head, tail, hhead, htail, rfl⟩ := cat_cons_eq_ok htext
  exact (hpart head hhead).append (hrest tail htail)

/-- The last part of a list. -/
theorem PartLeads.last {part : Except Fault Text} (h : PartLeads source target part) :
    PartLeads source target (cat [part]) := h.cons (.nil target)

theorem PartLeads.map {Item : Type} {items : List Item} {body : Item → Except Fault Text}
    (h : ∀ item, PartLeads source source (body item)) :
    PartLeads source source (cat (items.map body)) := by
  induction items with
  | nil => exact .nil source
  | cons item rest ih => exact (h item).cons ih

theorem PartLeads.of_unquoted {part : Except Fault Text} (h : PartLeads Unquoted target part) :
    PartLeads AtLine target part := fun text htext => (h text htext).of_unquoted

theorem PartLeads.of_start {part : Except Fault Text} (h : PartLeads Unquoted target part) :
    PartLeads AtStart target part := fun text htext => (h text htext).of_start

/-! ## Literal segments -/

variable {before after : Tag} {chars : Text}

theorem segment_unquoted (h : (slurp before chars after).all notQuote = true) :
    PartLeads Unquoted Unquoted (.ok (segment before (String.ofList chars) after)) := by
  rw [segment_ofList]
  exact .ok (leads_of_notQuote h)

/-- A segment between two directives. -/
theorem segment_start (h : (scanText .start (slurp before chars after)).2 = some .start) :
    PartLeads AtStart AtStart (.ok (segment before (String.ofList chars) after)) := by
  rw [segment_ofList]
  exact .ok (leads_start h)

/-- A segment that ends with a line break. -/
theorem segment_line (hplain : (slurp before chars after).dropLast.all notQuote = true)
    (hlast : (slurp before chars after).getLast? = some '\n') :
    PartLeads Unquoted AtLine (.ok (segment before (String.ofList chars) after)) := by
  rw [segment_ofList, ← List.dropLast_append_getLast? '\n' hlast]
  exact .ok ((leads_of_notQuote hplain).append newline_leads)

/-- A segment that begins with the end of a block, indented on a line of its own. -/
theorem segment_close (blanks : Nat)
    (hclose : (slurp before chars after).take (blanks + 3) =
      List.replicate blanks ' ' ++ [' ', ' ', '}'])
    (hrest : (scanText .start ((slurp before chars after).drop (blanks + 3))).2 = some .start) :
    PartLeads AtLine AtStart (.ok (segment before (String.ofList chars) after)) := by
  rw [segment_ofList, ← List.take_append_drop (blanks + 3) (slurp before chars after), hclose]
  exact .ok (((blanks_leads blanks).append closeBlock_leads).append (leads_start hrest))

/-- A segment with a quoted string. Only its end, from a given position on, is
evaluated, from every shape of a state. -/
theorem segment_quoted (position : Nat)
    (hplain : ((slurp before chars after).take position).all notQuote = true)
    (h : ∀ noArgs noRaw needSpace lastSpace sharpComment inVariable quoted : Bool,
      let scan := Scan.ofFlags noArgs noRaw needSpace lastSpace sharpComment inVariable quoted
        false false
      scan.Unquoted → ∀ final ∈ (scanText scan ((slurp before chars after).drop position)).2,
        final.Unquoted) :
    PartLeads Unquoted Unquoted (.ok (segment before (String.ofList chars) after)) := by
  rw [segment_ofList, ← List.take_append_drop position (slurp before chars after)]
  exact .ok ((leads_of_notQuote hplain).append
    (leads_of_flags (fun _ => id) unquoted_shaped unquoted_shaped h))

/-! ## Values -/

/-- A quote character is escaped, and no escape holds one. -/
theorem notQuote_of_encodeChar {c d : Char} (h : d ∈ Value.encodeChar c) : notQuote d = true := by
  have hentity : ∀ entity : String, entity.toList.all notQuote = true → d ∈ entity.toList →
      notQuote d = true := fun _ hall hd => List.all_eq_true.mp hall d hd
  unfold Value.encodeChar at h
  split at h
  iterate 5 exact hentity _ (by decide) h
  next hdouble hsingle =>
    rw [List.mem_singleton.mp h]
    simpa [notQuote] using ⟨hsingle, hdouble⟩

theorem escapeText_unquoted (text : Text) :
    PartLeads Unquoted Unquoted (.ok (Value.escapeText text)) := by
  refine .ok (leads_of_notQuote (List.all_eq_true.mpr fun d hd => ?_))
  obtain ⟨c, -, hc⟩ := List.mem_flatMap.mp hd
  exact notQuote_of_encodeChar hc

variable {N : Type} [Number N]

theorem toText_unquoted (value : Value N) (wrap : Text → Text) :
    PartLeads Unquoted Unquoted (value.toText.map fun text => Value.escapeText (wrap text)) := by
  cases value.toText with
  | error fault => rintro _ ⟨⟩
  | ok text => exact escapeText_unquoted _

theorem escapeXML_unquoted (value : Value N) : PartLeads Unquoted Unquoted value.escapeXML := by
  unfold Value.escapeXML
  split
  · exact .nil _
  · exact toText_unquoted value id

theorem weightText_unquoted (item : Instance N) :
    PartLeads Unquoted Unquoted (weightText item) := by
  unfold weightText
  split
  · exact toText_unquoted item.weight _
  · exact .nil _

theorem backupText_unquoted (item : Instance N) :
    PartLeads Unquoted Unquoted (.ok (backupText item)) := by
  unfold backupText
  split
  · exact escapeText_unquoted _
  · exact .nil _

theorem streamBalance_unquoted (r : Entry N) : PartLeads Unquoted Unquoted (streamBalance r) := by
  unfold streamBalance
  rcases r.balance.looseEq (.str "round_robin") with fault | _ | _
  · rintro _ ⟨⟩
  · rcases r.balance.toText with fault | text
    · rintro _ ⟨⟩
    · exact escapeText_unquoted _
  · exact .nil _

theorem httpBalance_unquoted (r : Entry N) : PartLeads Unquoted Unquoted (httpBalance r) := by
  unfold httpBalance
  rcases r.balance.looseEq (.str "round_robin") with fault | _ | _
  · rintro _ ⟨⟩
  · cases r.balance.truthy
    · exact .nil _
    · rcases r.balance.toText with fault | text
      · rintro _ ⟨⟩
      · exact escapeText_unquoted _
  · exact .nil _

/-! ## Applications -/

/-- A server line ends with a line break. -/
theorem streamServer_atLine (item : Instance N) :
    PartLeads AtLine AtLine (streamServer item) := by
  unfold streamServer
  refine .cons (segment_unquoted (by rfl)).of_unquoted ?_
  refine .cons (escapeXML_unquoted _) (.cons (weightText_unquoted item) ?_)
  refine .cons (backupText_unquoted item) (.last ?_)
  exact segment_line (by rfl) (by rfl)

theorem httpServer_atLine (item : Instance N) :
    PartLeads AtLine AtLine (httpServer item) := by
  unfold httpServer
  refine .cons (segment_unquoted (by rfl)).of_unquoted ?_
  refine .cons (escapeXML_unquoted _) (.cons (weightText_unquoted item) (.last ?_))
  exact segment_line (by rfl) (by rfl)

omit [Number N] in
theorem eachInstance_atLine {body : Instance N → Except Fault Text}
    (h : ∀ item, PartLeads AtLine AtLine (body item)) (instances : Instances N) :
    PartLeads AtLine AtLine (eachInstance body instances) := by
  cases instances with
  | list items => exact .map h
  | other value => rintro _ ⟨⟩

/-- The end of the upstream block stands on a line of its own. -/
theorem upstreamBlock_resyncs (appKey : String) {balance servers : Except Fault Text}
    (hbalance : PartLeads Unquoted Unquoted balance) (hservers : PartLeads AtLine AtLine servers) :
    PartLeads Unquoted AtStart (upstreamBlock appKey balance servers) := by
  unfold upstreamBlock
  refine .cons (segment_unquoted (by rfl)) (.cons (escapeText_unquoted _) ?_)
  refine .cons (segment_unquoted (by rfl)) (.cons hbalance ?_)
  refine .cons (segment_line (by rfl) (by rfl)) ?_
  refine .cons hservers (.last ?_)
  exact segment_close 1 (by rfl) (by rfl)

theorem streamApp_resyncs (appKey : String) (r : Entry N) :
    PartLeads AtStart AtStart (streamApp appKey r) := by
  refine PartLeads.of_start ?_
  unfold streamApp
  iterate 2 refine .cons (segment_unquoted (by rfl)) ?_
  refine .cons (escapeText_unquoted _) (.cons (segment_unquoted (by rfl)) ?_)
  refine .cons (escapeXML_unquoted _) (.cons (segment_unquoted (by rfl)) ?_)
  refine .cons (escapeText_unquoted _) (.cons (segment_unquoted (by rfl)) (.last ?_))
  exact upstreamBlock_resyncs appKey (streamBalance_unquoted r)
    (eachInstance_atLine streamServer_atLine r.instances)

theorem httpListenSsl_unquoted (r : Entry N) (ssl : Ssl N) :
    PartLeads Unquoted Unquoted (httpListenSsl r ssl) := by
  unfold httpListenSsl
  refine .cons (segment_unquoted (by rfl)) (.cons (escapeXML_unquoted _) ?_)
  iterate 2 refine .cons (segment_unquoted (by rfl)) ?_
  refine .cons (escapeXML_unquoted _) (.cons (segment_unquoted (by rfl)) ?_)
  refine .cons (escapeXML_unquoted _) ?_
  iterate 4 refine .cons (segment_unquoted (by rfl)) ?_
  -- the quoted header value begins and ends in this segment
  refine .cons (segment_quoted 0 (by rfl) (by decide +kernel)) (.last ?_)
  exact segment_unquoted (by rfl)

theorem httpListenPlain_unquoted (appKey : String) (r : Entry N) :
    PartLeads Unquoted Unquoted (httpListenPlain appKey r) := by
  unfold httpListenPlain
  refine .cons (segment_unquoted (by rfl)) (.cons (escapeXML_unquoted _) ?_)
  iterate 7 refine .cons (segment_unquoted (by rfl)) ?_
  refine .cons (segment_quoted 38 (by rfl) (by decide +kernel)) ?_
  refine .cons (segment_unquoted (by rfl)) ?_
  refine .cons (segment_quoted 36 (by rfl) (by decide +kernel)) ?_
  iterate 2 refine .cons (segment_unquoted (by rfl)) ?_
  exact .cons (escapeText_unquoted _) (.last (segment_unquoted (by rfl)))

theorem httpListen_unquoted (appKey : String) (r : Entry N) :
    PartLeads Unquoted Unquoted (httpListen appKey r) := by
  unfold httpListen
  split
  · exact httpListenSsl_unquoted r _
  · exact httpListenPlain_unquoted appKey r

theorem httpApp_resyncs (appKey : String) (r : Entry N) :
    PartLeads AtStart AtStart (httpApp appKey r) := by
  refine PartLeads.of_start ?_
  unfold httpApp
  iterate 2 refine .cons (segment_unquoted (by rfl)) ?_
  refine .cons (escapeXML_unquoted _) (.cons (segment_unquoted (by rfl)) ?_)
  refine .cons (httpListen_unquoted appKey r) ?_
  refine .cons (segment_unquoted (by rfl)) (.last ?_)
  exact upstreamBlock_resyncs appKey (httpBalance_unquoted r)
    (eachInstance_atLine httpServer_atLine r.instances)

/-! ## The file up to the applications of the http table -/

omit [Number N] in
theorem atKey_resyncs {body : String → Entry N → Except Fault Text}
    (h : ∀ appKey entry, PartLeads AtStart AtStart (body appKey entry)) (table : Table N)
    (appKey : String) : PartLeads AtStart AtStart (atKey body table appKey) := by
  unfold atKey
  split
  · exact h _ _
  · rintro _ ⟨⟩

theorem streamBlock_resyncs (stream : Table N) :
    PartLeads AtStart AtStart (streamBlock stream) := by
  unfold streamBlock
  split
  · have happs : PartLeads AtStart AtStart (eachApp streamApp stream) :=
      .map (atKey_resyncs streamApp_resyncs stream)
    exact .cons (segment_start (by rfl))
      (happs.cons (.last (segment_start (by rfl))))
  · exact .nil _

theorem statusServer_resyncs (statusPort : Value N) :
    PartLeads AtStart AtStart (statusServer statusPort) := by
  unfold statusServer
  split
  · exact .nil _
  · refine PartLeads.of_start ?_
    refine .cons (segment_unquoted (by rfl)) (.cons (escapeXML_unquoted _) ?_)
    iterate 4 refine .cons (segment_unquoted (by rfl)) ?_
    refine .cons (segment_line (by rfl) (by rfl)) (.last ?_)
    exact segment_close 2 (by rfl) (by rfl)

theorem errorLog_resyncs (debugMode : Value N) :
    PartLeads AtStart AtStart (errorLog debugMode) := by
  unfold errorLog
  rcases debugEnabled debugMode with fault | _ | _
  · rintro _ ⟨⟩
  · exact .nil _
  · exact segment_start (by rfl)

/-- The parts of the file before the applications of the http table. -/
def renderHead (conf : Conf N) : List (Except Fault Text) := [
  .ok (segment .plain "worker_processes  5;  ## Default: 1\n#daemon off;\n" .slurp),
  errorLog conf.debugMode,
  .ok (segment .slurp "\n\nevents \x7b\n" .plain),
  .ok (segment .plain "  worker_connections  4096;  ## Default: 1024\n\x7d\n\n" .slurp),
  streamBlock conf.stream,
  .ok (segment .slurp "\n\nhttp \x7b\n\n  " .slurp),
  statusServer conf.statusPort,
  .ok (segment .slurp "\n\n  " .slurp)]

theorem render_eq_renderHead (conf : Conf N) :
    render conf = cat (renderHead conf ++
      [httpApps conf.http, .ok (segment .slurp "\n\x7d\n" .plain)]) := rfl

theorem renderHead_resyncs (conf : Conf N) :
    PartLeads AtStart AtStart (cat (renderHead conf)) := by
  unfold renderHead
  refine .cons (segment_start (by rfl)) (.cons (errorLog_resyncs _) ?_)
  iterate 2 refine .cons (segment_start (by rfl)) ?_
  refine .cons (streamBlock_resyncs _) (.cons (segment_start (by rfl)) ?_)
  exact .cons (statusServer_resyncs _) (.last (segment_start (by rfl)))

end NginxInterface
