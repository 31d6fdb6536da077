import TableIntake.Proofs.Command.Told

namespace TableIntake.Command

open TableIntake.Batch (Gives contentsOf gives_emit)
open TableIntake.Files
open TableIntake.Json (Reader Tellable Value)

/-! What commands come to: the answer they were run for, or the obstacle that kept them from it. -/

def inputs : Command → List Path
  | checkGrammar _ grammar _ => [grammar]
  | checkData _ grammar data _ => [grammar, data]
  | bulk _ _ => []

def variantText? : Command → Option String
  | checkGrammar variant _ _ => some variant
  | checkData variant _ _ _ => some variant
  | bulk _ _ => none

variable {surroundings : Surroundings} {tree : FileTree}

/-- What can keep a command from its answer. Neither findings nor failures of pairs can. -/
inductive Obstacle (surroundings : Surroundings) (tree : FileTree) :
    Command → CommandError → Prop where
  | config {command : Command} {cause : ConfigError}
      (h : Config.resolve surroundings.temporary tree command.configPath = .error cause) :
      Obstacle surroundings tree command (.config cause)
  | variant {command : Command} {text : String} {unknown : UnknownVariant}
      (htext : command.variantText? = some text) (h : Variant.ofText text = .error unknown) :
      Obstacle surroundings tree command (.unknownVariant unknown)
  | input {command : Command} {path : Path} {cause : Error} (hpath : path ∈ command.inputs)
      (h : tree.readText path = .error cause) :
      Obstacle surroundings tree command (.input path cause)
  | cannotOpen {archive : Path} {config : Option Path} {cause : Error}
      (h : tree.lookup archive = .error cause) :
      Obstacle surroundings tree (bulk archive config) (.batch (.cannotOpen archive cause))
  | cannotRead {archive : Path} {config : Option Path} {location : Location} {node : Node}
      {fault : Archive.Fault} (hopen : tree.lookup archive = .ok (location, node))
      (h : (contentsOf node).fault = some fault) :
      Obstacle surroundings tree (bulk archive config) (.batch (.cannotRead archive fault))
  | noScratch {archive : Path} {path : Option Path} {config : Config} {cause : Error}
      {left : FileTree} (hconfig : Config.resolve surroundings.temporary tree path = .ok config)
      (h : Scratch.create config.scratchDir surroundings.run.tag tree = (.error cause, left)) :
      Obstacle surroundings tree (bulk archive path)
        (.batch (.noScratch (Scratch.location config.scratchDir surroundings.run.tag) cause))

/-- The check that the command is for has these findings. -/
inductive Finds (tree : FileTree) : Command → List Finding → Prop where
  | grammar {variant grammar : String} {path : Path} {config : Option Path}
      {findings : List Finding} (hgrammar : tree.readText path = .ok grammar)
      (h : Gives (TableIntake.checkGrammar variant grammar) (.ok findings)) :
      Finds tree (checkGrammar variant path config) findings
  | data {variant grammar data : String} {first second : Path} {config : Option Path}
      {findings : List Finding} (hgrammar : tree.readText first = .ok grammar)
      (hdata : tree.readText second = .ok data)
      (h : Gives (TableIntake.checkData variant grammar data) (.ok findings)) :
      Finds tree (checkData variant first second config) findings

/-- The archive is read to its end, and its pairs are reported. -/
structure Batched (surroundings : Surroundings) (tree : FileTree) (archive : Path)
    (config : Config) (reports : List Batch.Report) : Prop where
  opened : ∃ location node, tree.lookup archive = .ok (location, node) ∧
    (contentsOf node).fault = none
  scratch : ∃ scratch made,
    Scratch.create config.scratchDir surroundings.run.tag tree = (.ok scratch, made)
  reported : ∃ table : Batch.Table, ∃ unpacked, reports = table.reports unpacked

inductive Ends (surroundings : Surroundings) (tree : FileTree) :
    Command → Except CommandError Value → Prop where
  | stopped {command : Command} {e : CommandError} (h : Obstacle surroundings tree command e) :
      Ends surroundings tree command (.error e)
  | checked {command : Command} {config : Config} {findings : List Finding}
      (hconfig : Config.resolve surroundings.temporary tree command.configPath = .ok config)
      (h : Finds tree command findings) : Ends surroundings tree command (.ok (verdict findings))
  | batched {archive : Path} {path : Option Path} {config : Config}
      {reports : List Batch.Report}
      (hconfig : Config.resolve surroundings.temporary tree path = .ok config)
      (h : Batched surroundings tree archive config reports) :
      Ends surroundings tree (bulk archive path)
        (.ok (.object [("pairs", .array (reports.map Batch.Report.toJson))]))

/-! Configurations. -/

theorem severity_of_validate {config : Config} (h : config.validate = .ok ()) :
    ∃ severity, config.severity = .ok severity := by
  unfold Config.validate at h
  split_ifs at h
  obtain ⟨severity, hseverity, -⟩ := map_eq_ok.mp h
  exact ⟨severity, hseverity⟩

theorem Config.validate_of_load {temporary path : Path} {config : Config}
    (h : load temporary tree path = .ok config) : config.validate = .ok () := by
  unfold load at h
  split at h
  case h_1 => cases h
  case h_2 text _ =>
      unfold ofText at h
      split at h
      case h_1 => cases h
      case h_2 read _ =>
          obtain ⟨⟨⟩, hvalidate, rfl⟩ := map_eq_ok.mp h
          exact hvalidate

/-- The level of a configuration that is not refused is known. -/
theorem severity_of_resolve {temporary : Path} {path : Option Path} {config : Config}
    (h : Config.resolve temporary tree path = .ok config) :
    ∃ severity, config.severity = .ok severity := by
  cases path with
  | none =>
      cases h
      have hlevel : Log.Severity.ofName? "info" = some .info := by decide
      exact ⟨.info, by simp only [Config.severity, Config.default, hlevel]⟩
  | some path =>
      rw [Config.resolve] at h
      exact severity_of_validate (Config.validate_of_load h)

theorem gives_loadConfig_of_error {path : Option Path} {cause : ConfigError}
    (h : Config.resolve surroundings.temporary tree path = .error cause) :
    Gives (loadConfig surroundings tree path) (.error (.config cause)) := by
  unfold loadConfig
  rw [h]
  exact Gives.pure _

theorem gives_loadConfig {path : Option Path} {config : Config}
    (h : Config.resolve surroundings.temporary tree path = .ok config) :
    Gives (loadConfig surroundings tree path) (.ok config) := by
  obtain ⟨severity, hseverity⟩ := severity_of_resolve h
  unfold loadConfig
  rw [h, bind_of_ok rfl, hseverity]
  have hthreshold : Gives (modify fun journal : Log.Journal =>
      { journal with threshold := severity }) PUnit.unit := fun _ => rfl
  exact hthreshold.bind ((gives_emit _ _).bind (Gives.pure _))

theorem gives_execute_of_resolve {command : Command} {config : Config}
    {answer : Except CommandError Value × FileTree}
    (hconfig : Config.resolve surroundings.temporary tree command.configPath = .ok config)
    (h : Gives (command.executeWith config surroundings.run tree) answer) :
    Gives (command.execute surroundings tree) answer :=
  (gives_loadConfig hconfig).bind h

/-! Checks. -/

theorem gives_checkGrammar (v : Variant) (grammar : String) :
    Gives (v.checkGrammar grammar) (v.grammarFindings grammar) :=
  (gives_emit _ _).bind (Gives.pure _)

theorem gives_library_checkGrammar {text : String} {v : Variant} (h : Variant.ofText text = .ok v)
    (grammar : String) :
    Gives (TableIntake.checkGrammar text grammar) (.ok (v.grammarFindings grammar)) := by
  refine (Batch.Pending.gives_parse text).bind ?_
  rw [h]
  exact (gives_checkGrammar v grammar).bind (Gives.pure _)

theorem gives_library_checkData {text : String} {v : Variant} (h : Variant.ofText text = .ok v)
    (grammar data : String) :
    Gives (TableIntake.checkData text grammar data) (.ok (v.dataFindings grammar data)) := by
  refine (Batch.Pending.gives_parse text).bind ?_
  rw [h]
  exact (Batch.Pending.gives_checkData v grammar data).bind (Gives.pure _)

theorem readInput_of_ok {path : Path} {text : String} (h : tree.readText path = .ok text) :
    readInput tree path = .ok text := by
  simp only [readInput, h]

theorem readInput_of_error {path : Path} {cause : Error} (h : tree.readText path = .error cause) :
    readInput tree path = .error (.input path cause) := by
  simp only [readInput, h]

variable {config : Config}

theorem ends_checkGrammar {variant : String} {grammar : Path} {path : Option Path}
    (hconfig : Config.resolve surroundings.temporary tree path = .ok config) :
    ∃ answer,
      Gives ((checkGrammar variant grammar path).executeWith config surroundings.run tree) answer ∧
        Ends surroundings tree (checkGrammar variant grammar path) answer.1 := by
  have hparse := Batch.Pending.gives_parse variant
  cases hvariant : Variant.ofText variant with
  | error unknown =>
      rw [hvariant] at hparse
      exact ⟨_, hparse.bind (Gives.pure _), .stopped (.variant rfl hvariant)⟩
  | ok v =>
      rw [hvariant] at hparse
      cases hgrammar : tree.readText grammar with
      | error cause =>
          refine ⟨(.error (.input grammar cause), tree), hparse.bind ?_,
            .stopped (.input List.mem_cons_self hgrammar)⟩
          simp only [readInput_of_error hgrammar]
          exact Gives.pure _
      | ok text =>
          refine ⟨(.ok (verdict (v.grammarFindings text)), tree), hparse.bind ?_,
            .checked hconfig (.grammar hgrammar (gives_library_checkGrammar hvariant text))⟩
          simp only [readInput_of_ok hgrammar]
          exact (gives_checkGrammar v text).bind (Gives.pure _)

theorem ends_checkData {variant : String} {grammar data : Path} {path : Option Path}
    (hconfig : Config.resolve surroundings.temporary tree path = .ok config) :
    ∃ answer,
      Gives ((checkData variant grammar data path).executeWith config surroundings.run tree)
          answer ∧
        Ends surroundings tree (checkData variant grammar data path) answer.1 := by
  have hparse := Batch.Pending.gives_parse variant
  cases hvariant : Variant.ofText variant with
  | error unknown =>
      rw [hvariant] at hparse
      exact ⟨_, hparse.bind (Gives.pure _), .stopped (.variant rfl hvariant)⟩
  | ok v =>
      rw [hvariant] at hparse
      cases hgrammar : tree.readText grammar with
      | error cause =>
          refine ⟨(.error (.input grammar cause), tree), hparse.bind ?_,
            .stopped (.input List.mem_cons_self hgrammar)⟩
          simp only [readInput_of_error hgrammar]
          exact Gives.pure _
      | ok first =>
          cases hdata : tree.readText data with
          | error cause =>
              refine ⟨(.error (.input data cause), tree), hparse.bind ?_,
                .stopped (.input (List.mem_cons_of_mem _ List.mem_cons_self) hdata)⟩
              simp only [readInput_of_ok hgrammar, readInput_of_error hdata]
              exact Gives.pure _
          | ok second =>
              refine ⟨(.ok (verdict (v.dataFindings first second)), tree), hparse.bind ?_,
                .checked hconfig
                  (.data hgrammar hdata (gives_library_checkData hvariant first second))⟩
              simp only [readInput_of_ok hgrammar, readInput_of_ok hdata]
              exact (Batch.Pending.gives_checkData v first second).bind (Gives.pure _)

theorem ends_bulk {archive : Path} {path : Option Path}
    (hconfig : Config.resolve surroundings.temporary tree path = .ok config) :
    ∃ answer, Gives ((bulk archive path).executeWith config surroundings.run tree) answer ∧
      Ends surroundings tree (bulk archive path) answer.1 := by
  cases hopen : tree.lookup archive with
  | error cause =>
      have hprocess := config.plan.gives_process_of_missing surroundings.run hopen
      exact ⟨_, hprocess.bind (Gives.pure _), .stopped (.cannotOpen hopen)⟩
  | ok found =>
      obtain ⟨location, node⟩ := found
      cases hcreate : Scratch.create config.scratchDir surroundings.run.tag tree with
      | mk created made =>
          cases created with
          | error cause =>
              have hprocess :=
                config.plan.gives_process_of_noScratch surroundings.run hopen hcreate
              exact ⟨_, hprocess.bind (Gives.pure _), .stopped (.noScratch hconfig hcreate)⟩
          | ok scratch =>
              have hprocess := config.plan.gives_process_of_create surroundings.run hopen hcreate
              cases hfault : (contentsOf node).fault with
              | some fault =>
                  rw [hfault] at hprocess
                  exact ⟨_, hprocess.bind (Gives.pure _), .stopped (.cannotRead hopen hfault)⟩
              | none =>
                  rw [hfault] at hprocess
                  exact ⟨_, hprocess.bind (Gives.pure _),
                    .batched hconfig ⟨⟨location, node, hopen, hfault⟩, ⟨scratch, made, hcreate⟩,
                      ⟨_, _, rfl⟩⟩⟩

theorem ends_execute (command : Command) (surroundings : Surroundings) (tree : FileTree) :
    ∃ answer, Gives (command.execute surroundings tree) answer ∧
      Ends surroundings tree command answer.1 := by
  cases hconfig : Config.resolve surroundings.temporary tree command.configPath with
  | error cause =>
      exact ⟨(.error (.config cause), tree),
        (gives_loadConfig_of_error hconfig).bind (Gives.pure _), .stopped (.config hconfig)⟩
  | ok config =>
      have hends : ∃ answer,
          Gives (command.executeWith config surroundings.run tree) answer ∧
            Ends surroundings tree command answer.1 := by
        cases command with
        | checkGrammar variant grammar path => exact ends_checkGrammar hconfig
        | checkData variant grammar data path => exact ends_checkData hconfig
        | bulk archive path => exact ends_bulk hconfig
      obtain ⟨answer, hgives, hanswer⟩ := hends
      exact ⟨answer, gives_execute_of_resolve hconfig hgives, hanswer⟩

/-! What is said of how commands end. -/

theorem Gives.unique {action : Log.Logging α} {first second : α} (hfirst : Gives action first)
    (hsecond : Gives action second) : first = second :=
  (hfirst {}).symm.trans (hsecond {})

/-- A library check that answers was asked for a known variant. -/
theorem ofText_of_gives {text : String} {β : Type} {next : Variant → Log.Logging β}
    {findings : β}
    (h : Gives (do
      match ← Variant.parse text with
      | .error unknown => return .error unknown
      | .ok v => return .ok (← next v) : Log.Logging (Except UnknownVariant β)) (.ok findings)) :
    ∃ v, Variant.ofText text = .ok v := by
  cases hvariant : Variant.ofText text with
  | ok v => exact ⟨v, rfl⟩
  | error unknown =>
      have hparse := Batch.Pending.gives_parse text
      rw [hvariant] at hparse
      cases Gives.unique h (hparse.bind (Gives.pure _))

theorem Finds.plain {command : Command} {findings : List Finding}
    (h : Finds tree command findings) :
    ∀ finding ∈ findings, finding.Plain := by
  intro finding hfinding
  cases h with
  | grammar _ hcheck =>
      obtain ⟨v, hvariant⟩ := ofText_of_gives hcheck
      rw [Except.ok.inj (Gives.unique hcheck (gives_library_checkGrammar hvariant _))] at hfinding
      exact Finding.plain_of_origin (Check.origin_of_mem_grammar hfinding)
  | data _ _ hcheck =>
      obtain ⟨v, hvariant⟩ := ofText_of_gives hcheck
      rw [Except.ok.inj (Gives.unique hcheck (gives_library_checkData hvariant _ _))] at hfinding
      exact Finding.plain_of_origin (Check.origin_of_mem_dataFindings hfinding)

theorem Finds.ofText {command : Command} {findings : List Finding} {text : String}
    (h : Finds tree command findings) (htext : command.variantText? = some text) :
    ∃ v, Variant.ofText text = .ok v := by
  cases h with
  | grammar _ hcheck =>
      cases htext
      exact ofText_of_gives hcheck
  | data _ _ hcheck =>
      cases htext
      exact ofText_of_gives hcheck

theorem Finds.readText {command : Command} {findings : List Finding} {path : Path}
    (h : Finds tree command findings) (hpath : path ∈ command.inputs) :
    ∃ text, tree.readText path = .ok text := by
  cases h with
  | grammar hgrammar _ =>
      cases List.mem_singleton.mp hpath
      exact ⟨_, hgrammar⟩
  | data hgrammar hdata _ =>
      rcases List.mem_cons.mp hpath with rfl | hpath
      · exact ⟨_, hgrammar⟩
      · cases List.mem_singleton.mp hpath
        exact ⟨_, hdata⟩

/-- What ends with an answer met no obstacle. -/
theorem Ends.no_obstacle {command : Command} {data : Value} {e : CommandError}
    (h : Ends surroundings tree command (.ok data)) : ¬Obstacle surroundings tree command e := by
  intro hobstacle
  cases h with
  | checked hconfig hfinds =>
      cases hobstacle with
      | config hcause => cases hconfig.symm.trans hcause
      | «variant» htext hunknown =>
          obtain ⟨v, hv⟩ := hfinds.ofText htext
          cases hv.symm.trans hunknown
      | input hpath hcause =>
          obtain ⟨text, htext⟩ := hfinds.readText hpath
          cases htext.symm.trans hcause
      | cannotOpen _ => cases hfinds
      | cannotRead _ _ => cases hfinds
      | noScratch _ _ => cases hfinds
  | batched hconfig hbatched =>
      obtain ⟨location, node, hopen, hfault⟩ := hbatched.opened
      cases hobstacle with
      | config hcause => cases hconfig.symm.trans hcause
      | «variant» htext _ => cases htext
      | input hpath _ => cases hpath
      | cannotOpen hcause => cases hopen.symm.trans hcause
      | cannotRead hother hcause =>
          cases hopen.symm.trans hother
          cases hfault.symm.trans hcause
      | noScratch hother hcause =>
          obtain ⟨scratch, made, hcreate⟩ := hbatched.scratch
          cases hconfig.symm.trans hother
          cases hcreate.symm.trans hcause

theorem Ends.tellable {command : Command} {data : Value}
    (h : Ends surroundings tree command (.ok data)) : Tellable 126 data := by
  cases h with
  | checked _ hfinds => exact (tellable_verdict hfinds.plain).mono (by decide)
  | batched _ hbatched =>
      obtain ⟨table, unpacked, rfl⟩ := hbatched.reported
      have hpairs := Batch.tellable_reports table unpacked
      exact (Tellable.object (List.forall_mem_singleton.mpr hpairs)).mono (by decide)

/-- The response is one line of compact JSON, which is read as what it tells. -/
theorem Ends.line {command : Command} {result : Except CommandError Value}
    (h : Ends surroundings tree command result) :
    '\n' ∉ (told result).render.toList ∧ Json.parse (told result).render = .ok (told result) := by
  have htellable : Tellable Json.depthLimit (envelope result) := by
    refine tellable_envelope fun data hdata => ?_
    subst hdata
    exact h.tellable
  rw [← sorted_envelope]
  exact ⟨htellable.sorted.newline_not_mem, htellable.parse_sorted⟩

def outcome (command : Command) (surroundings : Surroundings) (tree : FileTree)
    (journal : Log.Journal) : Except CommandError Value :=
  ((command.execute surroundings tree).run journal).1.1

theorem ends_outcome (command : Command) (surroundings : Surroundings) (tree : FileTree)
    (journal : Log.Journal) :
    Ends surroundings tree command (command.outcome surroundings tree journal) := by
  obtain ⟨answer, hgives, hends⟩ := ends_execute command surroundings tree
  have houtcome : command.outcome surroundings tree journal = answer.1 :=
    congrArg Prod.fst (hgives journal)
  rw [houtcome]
  exact hends

def isCheck : Command → Bool
  | checkGrammar _ _ _ => true
  | checkData _ _ _ _ => true
  | bulk _ _ => false

/-- Every command writes one line of JSON, and the line tells what came of the command: the data,
which for a check is a verdict with the findings of the library's check, or the code and the message
of the error. There is an error if and only if there is an obstacle; findings and pairs that fail
are none. -/
theorem response_outcome (command : Command) (surroundings : Surroundings) (tree : FileTree)
    (journal : Log.Journal) :
    (∃ line, response (command.outcome surroundings tree journal) = line ++ "\n" ∧
      '\n' ∉ line.toList ∧ line = (told (command.outcome surroundings tree journal)).render ∧
      Json.parse line = .ok (told (command.outcome surroundings tree journal))) ∧
    (∀ data, command.outcome surroundings tree journal = .ok data → command.isCheck = true →
      ∃ findings items, Finds tree command findings ∧
        data.sorted = .object [("errors", .array items), ("valid", .bool items.isEmpty)] ∧
        Json.read (Reader.list Finding.reader) (Value.array items).render = .ok findings) ∧
    (∀ e, command.outcome surroundings tree journal = .error e →
      Obstacle surroundings tree command e) ∧
    ((∃ e, Obstacle surroundings tree command e) →
      ∃ e, command.outcome surroundings tree journal = .error e) := by
  have hends := ends_outcome command surroundings tree journal
  generalize command.outcome surroundings tree journal = result at hends ⊢
  obtain ⟨hline, hparse⟩ := hends.line
  refine ⟨⟨_, response_eq result, hline, rfl, hparse⟩, ?_, ?_, ?_⟩
  · intro data hdata hcheck
    rw [hdata] at hends
    cases hends with
    | batched _ _ => cases hcheck
    | @checked _ _ findings _ hfinds =>
        refine ⟨findings, _, hfinds, ?_, Finding.read_list_sorted hfinds.plain⟩
        rw [sorted_verdict, List.isEmpty_map]
  · intro e herror
    rw [herror] at hends
    cases hends with
    | stopped hobstacle => exact hobstacle
  · rintro ⟨e, hobstacle⟩
    cases result with
    | error e => exact ⟨e, rfl⟩
    | ok data => exact absurd hobstacle hends.no_obstacle

end TableIntake.Command
