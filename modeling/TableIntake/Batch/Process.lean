import TableIntake.Archive.Container
import TableIntake.Batch.Collect
import TableIntake.Batch.Report
import TableIntake.Batch.Workers
import TableIntake.Log.Scope

namespace TableIntake.Batch

open TableIntake.Archive (Contents)
open TableIntake.Files
open TableIntake.Log (Logging)

/-! Batches: an archive is unpacked, and all pairs in it are checked. -/

structure Plan where
  convention : Convention := SuffixConvention.classify {}
  scratchRoot : Path
  workers : Nat := 1

structure Run where
  tag : String
  elapsed : Nat := 0
  deriving Repr

def contentsOf : Node → Contents
  | .directory => ⟨[], some .isDirectory⟩
  | .file bytes => Archive.read bytes

namespace Plan

def unpackLogged (plan : Plan) (run : Run) (archive : Path) (scratch : Scratch)
    (contents : Contents) (tree : FileTree) :
    Logging (Except Failure Table × FileTree) := do
  let scope ← Log.Scope.start "BULK_UNPACK" [("scratch", scratch.path.text)]
  let ⟨slots, tree⟩ := collect plan.convention scratch contents.entries tree
  match contents.fault with
  | some fault =>
      let failure := Failure.cannotRead archive fault
      scope.fail failure.code
      return (.error failure, tree)
  | none =>
      scope.complete [("pairs", toString slots.pairs.length)] run.elapsed
      return (.ok slots.pairs, tree)

/-- The work in a scratch directory, which is gone afterwards. -/
def processIn (plan : Plan) (run : Run) (archive : Path) (scratch : Scratch)
    (contents : Contents) (tree : FileTree) :
    Logging (Except Failure (List Report) × FileTree) := do
  Log.emit .bulkStart [("archive", archive.text), ("scratch", scratch.path.text)]
  let (unpacked, tree) ← plan.unpackLogged run archive scratch contents tree
  match unpacked with
  | .error failure => return (.error failure, ← scratch.remove tree)
  | .ok table =>
      let reports ← workOff plan.workers (·.report tree) table
      return (.ok reports, ← scratch.remove tree)

/-- The batch without the entry in the log that tells its end. -/
def processQuietly (plan : Plan) (run : Run) (archive : Path) (tree : FileTree) :
    Logging (Except Failure (List Report) × FileTree) :=
  match tree.lookup archive with
  | .error e => return (.error (.cannotOpen archive e), tree)
  | .ok (_, node) =>
      match Scratch.create plan.scratchRoot run.tag tree with
      | (.error e, tree) =>
          return (.error (.noScratch (Scratch.location plan.scratchRoot run.tag) e), tree)
      | (.ok scratch, tree) => plan.processIn run archive scratch (contentsOf node) tree

/-- Checks every pair in an archive. Two things keep it from it: an archive that cannot be read, and
a scratch directory that cannot be made. -/
def process (plan : Plan) (run : Run) (archive : Path) (tree : FileTree) :
    Logging (Except Failure (List Report) × FileTree) := do
  let (result, tree) ← plan.processQuietly run archive tree
  match result with
  | .ok reports =>
      Log.emit .bulkComplete
        [("archive", archive.text), ("pairs", toString reports.length),
          ("failed", toString (reports.countP Report.isFailed))]
  | .error failure =>
      Log.emit .bulkAborted
        [("archive", archive.text), ("code", failure.code), ("error", failure.message)]
  return (result, tree)

end Plan

end TableIntake.Batch
