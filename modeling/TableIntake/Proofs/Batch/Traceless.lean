import Mathlib.Control.Monad.Basic
import TableIntake.Proofs.Archive.TarItems
import TableIntake.Proofs.Batch.Postings
import TableIntake.Proofs.Batch.Reports
import TableIntake.Proofs.Scratch.Undoing

namespace TableIntake.Batch

open TableIntake.Archive (Entry Octets)
open TableIntake.Files
open TableIntake.Scratch (Confined)

/-! Batches leave the file tree as they find it. -/

namespace Unpacked

theorem confined_take {scratch : Scratch} {tree : FileTree} {state : Unpacked Table}
    (h : Confined (tree.goal scratch.path) tree state.tree) (hsettled : scratch.Settled tree)
    (convention : Convention) (position : Nat) (entry : Entry) :
    Confined (tree.goal scratch.path) tree
      (state.take convention scratch position entry).tree := by
  cases entry with
  | skipped => exact h
  | «sealed» reason => exact h
  | member name regular content =>
      simp only [take]
      cases convention (normalize name) with
      | ignored => exact h
      | misnamed expected => cases regular <;> exact h
      | member pair variant half =>
          simp only [takeMember_eq, memberTree]
          split
          · exact h
          · split
            · exact h
            · exact h.write hsettled (normalize name) content

end Unpacked

/-- Whatever the entries are, unpacking them changes nothing outside of the scratch directory. -/
theorem confined_unpack {scratch : Scratch} {tree : FileTree} (hsettled : scratch.Settled tree)
    (convention : Convention) (entries : List Entry) :
    Confined (tree.goal scratch.path) tree (unpack convention scratch entries tree).tree :=
  Unpacked.takeAll_induction
    (motive := fun state => Confined (tree.goal scratch.path) tree state.tree) entries 1
    (fun _ entry _ _ h => Unpacked.confined_take h hsettled convention _ entry)
    (Confined.refl _ tree)

namespace Plan

/-- After a batch the file tree is the one before it, whatever the archive is and however the batch
ends. Asked is a new scratch directory that can be made, and a root of it without `..` which, if it
is missing, does not end in `.`: a directory made by such a name cannot be removed by it. -/
theorem tree_process (plan : Plan) (run : Run) (archive : Path) {tree : FileTree}
    (hrooted : tree.Rooted) (hdown : ".." ∉ plan.scratchRoot.pieces)
    (hremovable : Scratch.Removable tree plan.scratchRoot)
    (hfresh : tree.pathExists (Scratch.location plan.scratchRoot run.tag) = false)
    {scratch : Scratch} {made : FileTree}
    (hcreate : Scratch.create plan.scratchRoot run.tag tree = (.ok scratch, made))
    (journal : Log.Journal) :
    ((plan.process run archive tree).run journal).1.2 = tree := by
  cases hopen : tree.lookup archive with
  | error e => rw [plan.gives_process_of_missing run hopen journal]
  | ok found =>
      obtain ⟨location, node⟩ := found
      have hnames := Scratch.nameable_of_down hdown hremovable hcreate
      have hbuilt := Scratch.built_of_create hrooted hnames hfresh hcreate
      have hsettled := Scratch.settled_of_built hcreate hbuilt
      rw [plan.gives_process_of_create run hopen hcreate journal]
      exact Scratch.removed_of_confined hrooted hbuilt
        (confined_unpack hsettled plan.convention (contentsOf node).entries)

/-- Two files that are taken, and a block that is cut off. -/
def cutOctets : Octets :=
  Archive.Tar.packItem ⟨.file, "event/a.data.csv".toUTF8.toList, "1".toUTF8.toList⟩ ++
    Archive.Tar.packItem ⟨.file, "event/b.data.csv".toUTF8.toList, "2".toUTF8.toList⟩ ++ [1]

def cutTree : FileTree :=
  ⟨[(["batch.tar"], .file cutOctets)], []⟩

def cutPlan : Plan := { scratchRoot := ⟨false, ["work", "scratch"]⟩ }

def cutScratch : Scratch :=
  ⟨⟨false, ["work", "scratch", "ingestguard-tag"]⟩,
    [⟨false, ["work", "scratch"]⟩, ⟨false, ["work"]⟩]⟩

def cutMade : FileTree :=
  ⟨[(["ingestguard-tag", "scratch", "work"], .directory), (["scratch", "work"], .directory),
    (["work"], .directory), (["batch.tar"], .file cutOctets)], []⟩

/-- Both files are in the scratch directory when the archive turns out to be unreadable. -/
theorem tree_process_cutTree :
    (contentsOf (.file cutOctets)).fault = some .unfinishedBlock ∧
      Scratch.create cutPlan.scratchRoot "tag" cutTree = (.ok cutScratch, cutMade) ∧
      (unpack cutPlan.convention cutScratch (contentsOf (.file cutOctets)).entries
          cutMade).tree.nodes.length = cutMade.nodes.length + 3 ∧
      ((cutPlan.process ⟨"tag", 0⟩ ⟨false, ["batch.tar"]⟩ cutTree).run {}).1.2 = cutTree := by
  have hrooted : cutTree.Rooted := by
    intro location node hmem
    cases List.mem_singleton.mp hmem
    exact ⟨List.cons_ne_nil _ _, rfl⟩
  have hcreate : Scratch.create cutPlan.scratchRoot "tag" cutTree = (.ok cutScratch, cutMade) := by
    decide +kernel
  refine ⟨by decide +kernel, hcreate, by decide +kernel, ?_⟩
  exact tree_process cutPlan ⟨"tag", 0⟩ ⟨false, ["batch.tar"]⟩ hrooted (by decide)
    (Scratch.removable_of_isName (by decide)) (by decide +kernel) hcreate {}

end Plan

end TableIntake.Batch
