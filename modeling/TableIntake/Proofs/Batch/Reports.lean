import TableIntake.Batch.Process
import TableIntake.Proofs.Batch.Places
import TableIntake.Proofs.Batch.Workers
import TableIntake.Proofs.Scratch.Removal

namespace TableIntake.Batch

open TableIntake.Archive (Contents Entry)
open TableIntake.Files
open TableIntake.Log (Logging)

/-! Reports and batches apart from their log. -/

theorem gives_record (entry : Log.Entry) : Gives (Log.record entry) () :=
  fun _ => rfl

theorem gives_emit (event : Log.Event) (fields : List (String × String)) :
    Gives (Log.emit event fields) () :=
  gives_record _

theorem gives_start (name : String) (fields : List (String × String)) :
    Gives (Log.Scope.start name fields) { name, fields } :=
  (gives_record _).bind (Gives.pure _)

theorem gives_complete (scope : Log.Scope) (extra : List (String × String)) (elapsed : Nat) :
    Gives (scope.complete extra elapsed) () :=
  (gives_record _).bind (Gives.pure _)

theorem gives_fail (scope : Log.Scope) (reason : String) : Gives (scope.fail reason) () :=
  (gives_record _).bind (Gives.pure _)

namespace Report

def failure? (report : Report) : Option PairFailure :=
  match report.outcome with
  | .validated _ => none
  | .failed failure => some failure

def findings? (report : Report) : Option (List Finding) :=
  match report.outcome with
  | .validated findings => some findings
  | .failed _ => none

theorem outcome_of_failure? {report : Report} {failure : PairFailure}
    (h : report.failure? = some failure) : report.outcome = .failed failure := by
  unfold failure? at h
  split at h
  case h_1 => cases h
  case h_2 other houtcome => rw [houtcome, Option.some.inj h]

theorem outcome_of_findings? {report : Report} {findings : List Finding}
    (h : report.findings? = some findings) : report.outcome = .validated findings := by
  unfold findings? at h
  split at h
  case h_1 other houtcome => rw [houtcome, Option.some.inj h]
  case h_2 => cases h

end Report

namespace Pending

def known (pending : Pending) : Except UnknownVariant (Option Variant) :=
  match pending.variant with
  | none => .ok none
  | some text => (Variant.ofText text).map some

def outcome (pending : Pending) (tree : FileTree) : Outcome :=
  match pending.load pending.known tree with
  | .ok (variant, grammar, data) => .validated (variant.dataFindings grammar data)
  | .error failure => .failed failure

def reported (pending : Pending) (tree : FileTree) : Report :=
  ⟨pending.pair, pending.known.toOption.bind id, pending.outcome tree⟩

theorem load_eq_ok {pending : Pending} {known : Except UnknownVariant (Option Variant)}
    {tree : FileTree} {variant : Variant} {grammar data : String}
    (h : pending.load known tree = .ok (variant, grammar, data)) :
    pending.failure = none ∧ known = .ok (some variant) ∧
      ∃ first second, pending.grammar = some first ∧ pending.data = some second ∧
        first.read tree = .ok grammar ∧ second.read tree = .ok data := by
  unfold load at h
  split at h
  case h_6 other first second hfailure hgrammar hdata =>
      cases hfirst : first.read tree with
      | error e => simp [hfirst, bind, Except.bind] at h
      | ok text =>
          cases hsecond : second.read tree with
          | error e => simp [hfirst, hsecond, bind, Except.bind] at h
          | ok text =>
              simp [hfirst, hsecond, bind, Except.bind, pure, Except.pure] at h
              obtain ⟨rfl, rfl, rfl⟩ := h
              exact ⟨hfailure, rfl, first, second, hgrammar, hdata, hfirst, hsecond⟩
  all_goals cases h

theorem gives_parse (text : String) : Gives (Variant.parse text) (Variant.ofText text) := by
  unfold Variant.parse
  cases Variant.ofText text with
  | error unknown => exact (gives_emit _ _).bind (Gives.pure _)
  | ok variant => exact Gives.pure _

theorem gives_parseVariant (pending : Pending) : Gives pending.parseVariant pending.known := by
  unfold parseVariant known
  cases pending.variant with
  | none => exact Gives.pure _
  | some text => exact (gives_parse text).bind (Gives.pure _)

theorem gives_checkData (variant : Variant) (grammar data : String) :
    Gives (variant.checkData grammar data) (variant.dataFindings grammar data) :=
  (gives_emit _ _).bind (Gives.pure _)

theorem gives_report (pending : Pending) (tree : FileTree) :
    Gives (pending.report tree) (pending.reported tree) := by
  refine (gives_parseVariant pending).bind ?_
  unfold reported outcome
  cases pending.load pending.known tree with
  | error failure => exact (gives_emit _ _).bind (Gives.pure _)
  | ok texts =>
      obtain ⟨variant, grammar, data⟩ := texts
      exact (gives_checkData variant grammar data).bind
        ((gives_emit _ _).bind (Gives.pure _))

end Pending

namespace Table

def reports (table : Table) (tree : FileTree) : List Report :=
  table.map (·.reported tree)

theorem map_pair_reports (table : Table) (tree : FileTree) :
    (table.reports tree).map Report.pair = table.map Pending.pair :=
  List.map_map

theorem Distinct.filter_reports {table : Table} (h : table.Distinct) (tree : FileTree)
    (pair : String) :
    (table.reports tree).filter (·.pair = pair) =
      ((table.find? pair).map (·.reported tree)).toList := by
  have hcomp : (fun report : Report => decide (report.pair = pair)) ∘ (·.reported tree) =
      fun pending : Pending => decide (pending.pair = pair) := rfl
  rw [reports, List.filter_map, hcomp, h.filter_pair, Option.toList_map]

end Table

/-- What comes of an archive once its entries are unpacked. -/
def Unpacked.outcome (unpacked : Unpacked Table) (archive : Path) :
    Option Archive.Fault → Except Failure (List Report)
  | some fault => .error (.cannotRead archive fault)
  | none => .ok (unpacked.table.reports unpacked.tree)

theorem gives_remove (scratch : Scratch) (tree : FileTree) :
    Gives (scratch.remove tree) (scratch.removed tree) :=
  scratch.fst_run_remove tree

namespace Plan

theorem gives_unpackLogged (plan : Plan) (run : Run) (archive : Path) (scratch : Scratch)
    (contents : Contents) (tree : FileTree) :
    Gives (plan.unpackLogged run archive scratch contents tree)
      (match contents.fault with
        | some fault => .error (.cannotRead archive fault)
        | none => .ok (unpack plan.convention scratch contents.entries tree).table,
      (unpack plan.convention scratch contents.entries tree).tree) := by
  unfold unpackLogged
  refine (gives_start _ _).bind ?_
  rw [← pairs_collect, ← tree_collect]
  cases contents.fault with
  | some fault => exact (gives_fail _ _).bind (Gives.pure _)
  | none => exact (gives_complete _ _ _).bind (Gives.pure _)

theorem gives_processIn (plan : Plan) (run : Run) (archive : Path) (scratch : Scratch)
    (contents : Contents) (tree : FileTree) :
    Gives (plan.processIn run archive scratch contents tree)
      ((unpack plan.convention scratch contents.entries tree).outcome archive contents.fault,
        scratch.removed (unpack plan.convention scratch contents.entries tree).tree) := by
  unfold processIn
  refine (gives_emit _ _).bind
    ((plan.gives_unpackLogged run archive scratch contents tree).bind ?_)
  cases contents.fault with
  | some fault => exact (gives_remove scratch _).bind (Gives.pure _)
  | none =>
      refine (gives_workOff plan.workers _ fun pending _ => pending.gives_report _).bind ?_
      exact (gives_remove scratch _).bind (Gives.pure _)

theorem fst_run_processIn (plan : Plan) (run : Run) (archive : Path) (scratch : Scratch)
    (entries : List Entry) (tree : FileTree) (journal : Log.Journal) :
    ((plan.processIn run archive scratch ⟨entries, none⟩ tree).run journal).1.1 =
      .ok ((unpack plan.convention scratch entries tree).table.reports
        (unpack plan.convention scratch entries tree).tree) := by
  rw [plan.gives_processIn run archive scratch ⟨entries, none⟩ tree journal]
  rfl

theorem gives_process {plan : Plan} {run : Run} {archive : Path} {tree : FileTree}
    {value : Except Failure (List Report) × FileTree}
    (h : Gives (plan.processQuietly run archive tree) value) :
    Gives (plan.process run archive tree) value := by
  refine h.bind ?_
  obtain ⟨result, tree⟩ := value
  cases result with
  | error failure => exact (gives_emit _ _).bind (Gives.pure _)
  | ok reports => exact (gives_emit _ _).bind (Gives.pure _)

theorem gives_process_of_missing (plan : Plan) (run : Run) {archive : Path} {tree : FileTree}
    {e : Error} (h : tree.lookup archive = .error e) :
    Gives (plan.process run archive tree) (.error (.cannotOpen archive e), tree) := by
  refine gives_process ?_
  unfold processQuietly
  rw [h]
  exact Gives.pure _

theorem gives_process_of_noScratch (plan : Plan) (run : Run) {archive : Path}
    {tree left : FileTree} {found : Location × Node} {e : Error}
    (hopen : tree.lookup archive = .ok found)
    (hcreate : Scratch.create plan.scratchRoot run.tag tree = (.error e, left)) :
    Gives (plan.process run archive tree)
      (.error (.noScratch (Scratch.location plan.scratchRoot run.tag) e), left) := by
  refine gives_process ?_
  unfold processQuietly
  rw [hopen]
  simp only [hcreate]
  exact Gives.pure _

theorem gives_process_of_create (plan : Plan) (run : Run) {archive : Path}
    {tree made : FileTree} {location : Location} {node : Node} {scratch : Scratch}
    (hopen : tree.lookup archive = .ok (location, node))
    (hcreate : Scratch.create plan.scratchRoot run.tag tree = (.ok scratch, made)) :
    Gives (plan.process run archive tree)
      ((unpack plan.convention scratch (contentsOf node).entries made).outcome archive
          (contentsOf node).fault,
        scratch.removed (unpack plan.convention scratch (contentsOf node).entries made).tree) := by
  refine gives_process ?_
  unfold processQuietly
  rw [hopen]
  simp only [hcreate]
  exact plan.gives_processIn run archive scratch (contentsOf node) made

end Plan

end TableIntake.Batch
