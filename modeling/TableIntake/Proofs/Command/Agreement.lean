import TableIntake.Proofs.Batch.Halves
import TableIntake.Proofs.Command.Answers

namespace TableIntake

open TableIntake.Batch (Gives Half IsMember SuffixConvention WritesBoth contentsOf)
open TableIntake.Files
open TableIntake.Json (Value)
open TableIntake.Text (ofUtf8?)

/-! Two halves come to the same in an archive and in two files. -/

def Json.Value.member? : Value → String → Option Value
  | .object members, key => members.lookup key
  | _, _ => none

namespace Command

variable {surroundings : Surroundings} {tree : FileTree}

theorem Finds.unique {command : Command} {findings others : List Finding}
    (h : Finds tree command findings) (hother : Finds tree command others) :
    findings = others := by
  cases h with
  | grammar hgrammar hcheck =>
      cases hother with
      | grammar hother hrepeated =>
          cases hgrammar.symm.trans hother
          exact Except.ok.inj (Gives.unique hcheck hrepeated)
  | data hgrammar hdata hcheck =>
      cases hother with
      | data hfirst hsecond hrepeated =>
          cases hgrammar.symm.trans hfirst
          cases hdata.symm.trans hsecond
          exact Except.ok.inj (Gives.unique hcheck hrepeated)

theorem outcome_of_finds {command : Command} {config : Config} {findings : List Finding}
    (hconfig : Config.resolve surroundings.temporary tree command.configPath = .ok config)
    (h : Finds tree command findings) (journal : Log.Journal) :
    command.outcome surroundings tree journal = .ok (verdict findings) := by
  have hclear {e : CommandError} : ¬Obstacle surroundings tree command e :=
    (Ends.checked hconfig h).no_obstacle
  have hends := ends_outcome command surroundings tree journal
  generalize command.outcome surroundings tree journal = result at hends ⊢
  cases hends with
  | stopped hobstacle => exact absurd hobstacle hclear
  | checked _ hother => rw [hother.unique h]
  | batched _ _ => cases h

theorem outcome_of_obstacle {command : Command} {e : CommandError}
    (h : Obstacle surroundings tree command e) (journal : Log.Journal) :
    ∃ e, command.outcome surroundings tree journal = .error e ∧
      Obstacle surroundings tree command e := by
  have hends := ends_outcome command surroundings tree journal
  cases hresult : command.outcome surroundings tree journal with
  | error e =>
      rw [hresult] at hends
      cases hends with
      | stopped hobstacle => exact ⟨e, rfl, hobstacle⟩
  | ok data =>
      rw [hresult] at hends
      exact absurd h hends.no_obstacle

theorem outcome_bulk {archive : Path} {path : Option Path} {config : Config}
    {location : Location} {node : Node} {scratch : Scratch} {made : FileTree}
    (hconfig : Config.resolve surroundings.temporary tree path = .ok config)
    (hopen : tree.lookup archive = .ok (location, node))
    (hcreate : Scratch.create config.scratchDir surroundings.run.tag tree = (.ok scratch, made))
    (hfault : (contentsOf node).fault = none) {unpacked : Batch.Unpacked Batch.Table}
    (hunpack :
      Batch.unpack config.plan.convention scratch (contentsOf node).entries made = unpacked)
    (journal : Log.Journal) :
    (bulk archive path).outcome surroundings tree journal =
      .ok (.object
        [("pairs", .array ((unpacked.table.reports unpacked.tree).map Batch.Report.toJson))]) := by
  have hprocess := config.plan.gives_process_of_create surroundings.run hopen hcreate
  rw [hfault, hunpack] at hprocess
  have hexecute : Gives ((bulk archive path).execute surroundings tree) _ :=
    gives_execute_of_resolve hconfig (hprocess.bind (Gives.pure _))
  exact congrArg Prod.fst (hexecute journal)

/-! One pair, in an archive and in two files. -/

section Pair

variable {v : Variant} {name pair : String} {body : Half → List UInt8} {first : Half}

/-- The archive holds the two halves of one pair and nothing else, and a batch with the default
suffixes can write both of them to its scratch directory. -/
structure Holds (surroundings : Surroundings) (tree : FileTree) (archive : Path)
    (settings : Option Path) (v : Variant) (name : String) (body : Half → List UInt8)
    (first : Half) : Prop where
  contents : ∃ location node, tree.lookup archive = .ok (location, node) ∧
    contentsOf node = ⟨[first.entry v name body, first.other.entry v name body], none⟩
  members : ∃ pair, ∀ half : Half,
    IsMember ({} : SuffixConvention).classify pair (half.entry v name body)
  writable : ∃ config scratch made paths full,
    Config.resolve surroundings.temporary tree settings = .ok config ∧
    config.grammarSuffix = Half.grammar.suffix ∧ config.dataSuffix = Half.data.suffix ∧
    Scratch.create config.scratchDir surroundings.run.tag tree = (.ok scratch, made) ∧
    WritesBoth scratch v name body first made paths full

/-- A batch over the two halves has one report, and nothing but their texts decides it. -/
theorem outcome_bulk_of_holds {archive : Path} {settings : Option Path}
    (h : Holds surroundings tree archive settings v name body first) (journal : Log.Journal) :
    ∃ report : Batch.Report,
      (bulk archive settings).outcome surroundings tree journal =
        .ok (.object [("pairs", .array [report.toJson])]) ∧
      report.outcome =
        Batch.outcomeOfTexts v name (ofUtf8? (body .grammar)) (ofUtf8? (body .data)) := by
  obtain ⟨location, node, hopen, hcontents⟩ := h.contents
  obtain ⟨pair, hmembers⟩ := h.members
  obtain ⟨config, scratch, made, paths, full, hconfig, hgrammar, hdata, hcreate, hwrites⟩ :=
    h.writable
  have hconvention : config.plan.convention = ({} : SuffixConvention).classify := by
    simp only [Config.plan, hgrammar, hdata, Half.suffix]
  have hfault : (contentsOf node).fault = none := by rw [hcontents]
  have hunpack := Batch.unpack_both (fun half => (Half.member_entry (hmembers half)).1) hwrites
  rw [← hconvention] at hunpack
  have hentries : Batch.unpack config.plan.convention scratch (contentsOf node).entries made =
      ⟨[Batch.completeRow v name pair paths], full⟩ := by rw [hcontents, hunpack]
  refine ⟨(Batch.completeRow v name pair paths).reported full,
    outcome_bulk hconfig hopen hcreate hfault hentries journal, ?_⟩
  rw [Batch.Pending.outcome_reported]
  exact Batch.outcome_completeRow (fun half => (Half.member_entry (hmembers half)).2) hwrites

/-- The errors of a report on a validated pair, and the code of one on a pair that failed. -/
theorem member?_toJson (report : Batch.Report) :
    (∀ findings, report.outcome = .validated findings →
      report.toJson.member? "errors" = some (Finding.listToJson findings)) ∧
    ∀ failure, report.outcome = .failed failure →
      (report.toJson.member? "failure").bind (·.member? "code") = some (.string failure.code) := by
  obtain ⟨pair, variant, outcome⟩ := report
  constructor
  · rintro findings rfl
    rfl
  · rintro failure rfl
    rfl

theorem readText_of_text {path : Path} {bytes : List UInt8} {text : String}
    (h : tree.readFile path = .ok bytes) (htext : ofUtf8? bytes = some text) :
    tree.readText path = .ok text := by
  rw [FileTree.readText, bind_of_ok h, htext]
  rfl

theorem readText_of_noText {path : Path} {bytes : List UInt8}
    (h : tree.readFile path = .ok bytes) (htext : ofUtf8? bytes = none) :
    tree.readText path = .error .notText := by
  rw [FileTree.readText, bind_of_ok h, htext]

theorem ofText_name (v : Variant) : Variant.ofText v.name = .ok v := by
  cases v <;> decide

variable {checking : Surroundings} {files : FileTree} {grammar data : Path}

/-- A check of two files that is kept from it by what stands in them fails for its input. -/
theorem code_of_unreadable {config : Config} {path : Option Path} {input : Path} {cause : Error}
    (hconfig : Config.resolve checking.temporary files path = .ok config)
    (hinput : input ∈ [grammar, data]) (hcause : files.readText input = .error cause)
    (journal : Log.Journal) :
    ∃ e, (checkData v.name grammar data path).outcome checking files journal = .error e ∧
      e.code = "INGEST_CLI_IO_ERROR" := by
  have hobstacle : Obstacle checking files (checkData v.name grammar data path)
      (.input input cause) := .input hinput hcause
  obtain ⟨e, he, hmet⟩ := outcome_of_obstacle hobstacle journal
  refine ⟨e, he, ?_⟩
  cases hmet with
  | config hother => cases hconfig.symm.trans hother
  | «variant» htext hunknown =>
      cases htext
      cases (ofText_name v).symm.trans hunknown
  | input _ _ => rfl

/-- Two halves with texts in them have the same errors in an archive and in two files. If one of
them is no text, neither way checks them: the command fails for the files, and for the archive its
report tells that the pair did. -/
theorem outcome_checkData_bulk {config : Config} {path settings : Option Path} {archive : Path}
    (hconfig : Config.resolve checking.temporary files path = .ok config)
    (hgrammar : files.readFile grammar = .ok (body .grammar))
    (hdata : files.readFile data = .ok (body .data))
    (h : Holds surroundings tree archive settings v name body first)
    (journal other : Log.Journal) :
    (∀ first second, ofUtf8? (body .grammar) = some first → ofUtf8? (body .data) = some second →
      ∃ checked batch report errors,
        (checkData v.name grammar data path).outcome checking files journal = .ok checked ∧
        (bulk archive settings).outcome surroundings tree other = .ok batch ∧
        batch.member? "pairs" = some (.array [report]) ∧
        checked.member? "errors" = some (.array errors) ∧
        report.member? "errors" = some (.array errors)) ∧
    (ofUtf8? (body .grammar) = none ∨ ofUtf8? (body .data) = none →
      ∃ e batch report,
        (checkData v.name grammar data path).outcome checking files journal = .error e ∧
        e.code = "INGEST_CLI_IO_ERROR" ∧
        (bulk archive settings).outcome surroundings tree other = .ok batch ∧
        batch.member? "pairs" = some (.array [report]) ∧
        (report.member? "failure").bind (·.member? "code") =
          some (.string "INGEST_PAIR_UNREADABLE_ENTRY")) := by
  obtain ⟨report, hbulk, houtcome⟩ := outcome_bulk_of_holds h other
  obtain ⟨herrors, hcode⟩ := member?_toJson report
  constructor
  · intro text rows hfirst hsecond
    have hfinds : Finds files (checkData v.name grammar data path) (v.dataFindings text rows) :=
      .data (readText_of_text hgrammar hfirst) (readText_of_text hdata hsecond)
        (gives_library_checkData (ofText_name v) text rows)
    rw [hfirst, hsecond] at houtcome
    exact ⟨_, _, report.toJson, _, outcome_of_finds hconfig hfinds journal, hbulk, rfl, rfl,
      herrors _ houtcome⟩
  · intro hnone
    have hfailed : ∃ entry reason, report.outcome = .failed (.unreadable entry reason) := by
      rw [houtcome]
      cases hfirst : ofUtf8? (body .grammar) with
      | none => exact ⟨_, _, rfl⟩
      | some text =>
          rw [hnone.resolve_left (by simp [hfirst])]
          exact ⟨_, _, rfl⟩
    have herror : ∃ input ∈ [grammar, data], files.readText input = .error .notText := by
      rcases hnone with hnone | hnone
      · exact ⟨grammar, by simp, readText_of_noText hgrammar hnone⟩
      · exact ⟨data, by simp, readText_of_noText hdata hnone⟩
    obtain ⟨entry, reason, hreport⟩ := hfailed
    obtain ⟨input, hinput, hcause⟩ := herror
    obtain ⟨e, he, hio⟩ := code_of_unreadable hconfig hinput hcause journal
    exact ⟨e, _, report.toJson, he, hio, hbulk, rfl, hcode _ hreport⟩

end Pair

/-! The pair of a small archive, and its halves beside it. -/

def halves : Half → List UInt8
  | .grammar => "FK\ninteger\nid".toUTF8.toList
  | .data => "1".toUTF8.toList

def halvesTree : FileTree where
  nodes :=
    [(["grammar.csv"], .file (halves .grammar)), (["data.csv"], .file (halves .data)),
      (["batch.bin"], .file Batch.Plan.pairZip)]

def halvesRun : Surroundings := ⟨⟨false, ["tmp"]⟩, ⟨"tag", 0⟩⟩

def halvesScratch : Scratch := ⟨⟨false, ["tmp", "ingestguard-tag"]⟩, [⟨false, ["tmp"]⟩]⟩

def halvesPath (half : Half) : Path :=
  ⟨false, ["tmp", "ingestguard-tag", "event", "a" ++ half.suffix]⟩

theorem holds_halvesTree :
    Holds halvesRun halvesTree ⟨false, ["batch.bin"]⟩ none .event "a" halves .grammar where
  contents :=
    ⟨["batch.bin"], .file Batch.Plan.pairZip, by decide +kernel, by decide +kernel⟩
  members := ⟨"event/a", fun half => ⟨half, "event", by cases half <;> decide +kernel⟩⟩
  writable := by
    let made : FileTree :=
      ⟨(["ingestguard-tag", "tmp"], .directory) :: (["tmp"], .directory) :: halvesTree.nodes, []⟩
    let middle := (halvesScratch.write "event/a.grammar.csv" ⟨halves .grammar, none⟩ made).2
    let full := (halvesScratch.write "event/a.data.csv" ⟨halves .data, none⟩ middle).2
    have hgrammar :
        Batch.normalize (Half.grammar.entryName .event "a") = "event/a.grammar.csv" := by
      decide +kernel
    have hdata : Batch.normalize (Half.data.entryName .event "a") = "event/a.data.csv" := by
      decide +kernel
    refine ⟨.default ⟨false, ["tmp"]⟩, halvesScratch, made, halvesPath, full, rfl, rfl, rfl,
      by decide +kernel, middle, ?_, ?_⟩
    · rw [hgrammar]
      exact Prod.ext (by decide +kernel) rfl
    · rw [Half.other, hdata]
      exact Prod.ext (by decide +kernel) rfl

theorem outcome_checkData_bulk_halvesTree :
    ∃ checked batch report errors,
      (checkData "event" ⟨false, ["grammar.csv"]⟩ ⟨false, ["data.csv"]⟩ none).outcome halvesRun
        halvesTree {} = .ok checked ∧
      (bulk ⟨false, ["batch.bin"]⟩ none).outcome halvesRun halvesTree {} = .ok batch ∧
      batch.member? "pairs" = some (.array [report]) ∧
      checked.member? "errors" = some (.array errors) ∧
      report.member? "errors" = some (.array errors) := by
  have hgrammar : halvesTree.readFile ⟨false, ["grammar.csv"]⟩ = .ok (halves .grammar) := by
    decide +kernel
  have hdata : halvesTree.readFile ⟨false, ["data.csv"]⟩ = .ok (halves .data) := by
    decide +kernel
  have hfirst : ofUtf8? (halves .grammar) = some "FK\ninteger\nid" := by decide +kernel
  have hsecond : ofUtf8? (halves .data) = some "1" := by decide +kernel
  exact (outcome_checkData_bulk (v := .event) rfl hgrammar hdata holds_halvesTree {} {}).1 _ _
    hfirst hsecond

end Command

end TableIntake
