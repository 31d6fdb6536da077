import TableIntake.Proofs.Batch.Chronicles
import TableIntake.Proofs.Log.Alike

namespace TableIntake.Batch

open TableIntake.Archive (Contents)
open TableIntake.Files
open TableIntake.Log (Alike Severity Tells Thinned)

/-! Thresholds: what a journal keeps has no influence on what is done. -/

theorem alike_parse (text : String) : Alike (Variant.parse text) (Variant.parse text) := by
  unfold Variant.parse
  cases Variant.ofText text with
  | ok variant => exact Alike.pure _
  | error unknown => exact (Alike.emit _ _).bind fun _ => Alike.pure _

theorem alike_report (variant : Variant) (event : Log.Event) (findings : List Finding) :
    Alike (variant.report event findings) (variant.report event findings) :=
  (Alike.emit _ _).bind fun _ => Alike.pure _

theorem alike_checkGrammar (variant grammar : String) :
    Alike (checkGrammar variant grammar) (checkGrammar variant grammar) := by
  refine (alike_parse variant).bind fun parsed => ?_
  cases parsed with
  | error unknown => exact Alike.pure _
  | ok variant => exact (alike_report variant _ _).bind fun _ => Alike.pure _

theorem alike_checkData (variant grammar data : String) :
    Alike (checkData variant grammar data) (checkData variant grammar data) := by
  refine (alike_parse variant).bind fun parsed => ?_
  cases parsed with
  | error unknown => exact Alike.pure _
  | ok variant => exact (alike_report variant _ _).bind fun _ => Alike.pure _

theorem alike_remove (scratch : Scratch) (tree : FileTree) :
    Alike (scratch.remove tree) (scratch.remove tree) := by
  obtain ⟨left, cleanup, htells, -⟩ := tells_remove scratch tree
  exact htells.alike

namespace Plan

variable (plan : Plan) (tag : String) (elapsed later : Nat) (archive : Path) (scratch : Scratch)
  (contents : Contents) (tree : FileTree)

theorem alike_unpackLogged :
    Alike (plan.unpackLogged ⟨tag, elapsed⟩ archive scratch contents tree)
      (plan.unpackLogged ⟨tag, later⟩ archive scratch contents tree) := by
  refine (Tells.start _ _).alike.bind fun scope => ?_
  cases contents.fault with
  | some fault => exact (Tells.fail _ _).alike.bind fun _ => Alike.pure _
  | none => exact (Alike.complete _ _ _ _).bind fun _ => Alike.pure _

theorem alike_processIn (convention : Convention) (root : Path) :
    Alike ((alone convention root).processIn ⟨tag, elapsed⟩ archive scratch contents tree)
      ((alone convention root).processIn ⟨tag, later⟩ archive scratch contents tree) := by
  refine (Alike.emit _ _).bind fun _ => ?_
  refine (alike_unpackLogged _ tag elapsed later archive scratch contents tree).bind ?_
  rintro ⟨unpacked, tree⟩
  cases unpacked with
  | error failure => exact (alike_remove scratch tree).bind fun _ => Alike.pure _
  | ok table =>
      exact (table.tells_workOff tree).alike.bind fun reports =>
        (alike_remove scratch tree).bind fun _ => Alike.pure _

theorem alike_processQuietly (convention : Convention) (root : Path) :
    Alike ((alone convention root).processQuietly ⟨tag, elapsed⟩ archive tree)
      ((alone convention root).processQuietly ⟨tag, later⟩ archive tree) := by
  unfold processQuietly
  cases tree.lookup archive with
  | error e => exact Alike.pure _
  | ok found =>
      dsimp only
      rcases Scratch.create root tag tree with ⟨e | scratch, made⟩
      · exact Alike.pure _
      · exact alike_processIn tag elapsed later archive scratch _ made convention root

theorem alike_process (convention : Convention) (root : Path) :
    Alike ((alone convention root).process ⟨tag, elapsed⟩ archive tree)
      ((alone convention root).process ⟨tag, later⟩ archive tree) := by
  refine (alike_processQuietly tag elapsed later archive tree convention root).bind ?_
  rintro ⟨result, left⟩
  cases result with
  | ok reports => exact (Alike.emit _ _).bind fun _ => Alike.pure _
  | error failure => exact (Alike.emit _ _).bind fun _ => Alike.pure _

end Plan

/-- The threshold of the journal has no influence on what a check gives, nor on what a batch gives
and what it leaves in the tree; of the entries it lets through those that are severe enough. Both
batches draw the same name for the scratch directory, and need not take the same time. -/
theorem threshold_thins {low high : Severity} (h : low ≤ high) :
    (∀ variant grammar,
        Thinned low high (checkGrammar variant grammar) (checkGrammar variant grammar)) ∧
      (∀ variant grammar data,
        Thinned low high (checkData variant grammar data) (checkData variant grammar data)) ∧
      ∀ convention root tag elapsed later archive tree,
        Thinned low high
          ((Plan.alone convention root).process ⟨tag, elapsed⟩ archive tree)
          ((Plan.alone convention root).process ⟨tag, later⟩ archive tree) := by
  refine ⟨fun variant grammar => ?_, fun variant grammar data => ?_,
    fun convention root tag elapsed later archive tree => ?_⟩
  · exact (alike_checkGrammar variant grammar).thinned h
  · exact (alike_checkData variant grammar data).thinned h
  · exact (Plan.alike_process tag elapsed later archive tree convention root).thinned h

/-- A batch of an empty archive, by the time that it takes. -/
def emptyBatch (elapsed : Nat) : Log.Logging (Except Failure (List Report) × FileTree) :=
  (Plan.alone ({} : SuffixConvention).classify ⟨false, ["scratch"]⟩).process ⟨"tag", elapsed⟩
    ⟨false, ["batch.tar"]⟩ ⟨[(["batch.tar"], .file [])], []⟩

theorem threshold_thins_emptyBatch :
    Severity.info ≤ Severity.warn ∧ Thinned .info .warn (emptyBatch 0) (emptyBatch 7) ∧
      ((emptyBatch 0).run ⟨.info, []⟩).2.entries.map (·.event) =
        ["BULK_BEGIN", "BULK_UNPACK_BEGIN", "BULK_UNPACK_COMPLETE", "BULK_COMPLETE"] ∧
      ((emptyBatch 7).run ⟨.warn, []⟩).2.entries = [] := by
  have hle : Severity.info ≤ Severity.warn := by decide
  obtain ⟨-, -, hbatch⟩ := threshold_thins hle
  exact ⟨hle, hbatch _ _ _ 0 7 _ _, by decide +kernel, by decide +kernel⟩

end TableIntake.Batch
