import TableIntake.Proofs.Files.Stopping
import TableIntake.Proofs.Scratch.Confined
import TableIntake.Proofs.Scratch.Removal

namespace TableIntake.Scratch

open TableIntake.Files
open TableIntake.Files.FileTree (Built Named)

/-! Scratch directories undo what was done for them. -/

theorem create_eq_ok {root : Path} {tag : String} {tree made : FileTree} {scratch : Scratch}
    (h : create root tag tree = (.ok scratch, made)) :
    tree.makeDirectories (location root tag) = (.ok (), made) ∧
      scratch = ⟨location root tag, tree.missing root⟩ := by
  unfold create at h
  rcases hmake : tree.makeDirectories (location root tag) with ⟨result, later⟩
  cases result with
  | error e => simp [hmake] at h
  | ok u =>
      simp only [hmake, Prod.mk.injEq, Except.ok.injEq] at h
      obtain ⟨rfl, rfl⟩ := h
      exact ⟨rfl, rfl⟩

theorem create_eq_error {root : Path} {tag : String} {tree left : FileTree} {e : Error}
    (h : create root tag tree = (.error e, left)) :
    tree.makeDirectories (location root tag) = (.error e, left) := by
  unfold create at h
  rcases hmake : tree.makeDirectories (location root tag) with ⟨result, later⟩
  cases result with
  | error other =>
      simp only [hmake, Prod.mk.injEq, Except.error.injEq] at h
      obtain ⟨rfl, rfl⟩ := h
      rfl
  | ok u => simp [hmake] at h

theorem pieces_location (root : Path) (tag : String) :
    ∃ before, (location root tag).pieces = before ++ [namePrefix ++ tag] := by
  obtain ⟨before, slashes, -, -, hchild⟩ := FileTree.child_append root (namePrefix ++ tag)
  exact ⟨before, by rw [location, hchild]⟩

/-- A root without references to parents can be made by name, if it does not end in a reference to
the current directory. -/
theorem nameable_of_down {tree made : FileTree} {root : Path} {tag : String} {scratch : Scratch}
    (hdown : ".." ∉ root.pieces) (hremovable : Removable tree root)
    (hcreate : create root tag tree = (.ok scratch, made)) : tree.Nameable root := by
  obtain ⟨hcheckall, hstart⟩ :=
    FileTree.start_of_makeDirectories (location_isEmpty root tag) (create_eq_ok hcreate).1
  intro dir hdir
  cases hempty : root.isEmpty with
  | true => simp [FileTree.missing_of_pathExists (Or.inl hempty)] at hdir
  | false =>
      cases habsent : tree.pathExists root with
      | true => simp [FileTree.missing_of_pathExists (Or.inr habsent)] at hdir
      | false =>
          have hcheck := checkPath_of_location hempty hcheckall
          have hstartroot : tree.find? (tree.start root) = some .directory := by
            obtain ⟨before, slashes, -, -, hchild⟩ :=
              FileTree.child_append root (namePrefix ++ tag)
            rw [location, hchild] at hstart
            exact hstart
          rw [FileTree.missing_eq_cons hempty habsent] at hdir
          obtain rfl | hdir := List.mem_cons.mp hdir
          · have hbusy : ¬ ∀ piece ∈ dir.pieces, Path.isIdle piece = true := fun hidle => by
              simp [FileTree.pathExists_of_idle hcheck hstartroot hidle] at habsent
            obtain ⟨name, hname⟩ := Classical.not_forall.mp hbusy
            obtain ⟨hmem, hidle⟩ := Classical.not_imp.mp hname
            have hparent : name ≠ ".." := fun heq => hdown (heq ▸ hmem)
            exact FileTree.named_of_isName (by simp [FileTree.isName, hidle, hparent]) hmem hdown
              (hremovable.resolve_left (by simp [habsent]))
          · exact FileTree.named_above_of_down hdown hcheck hstartroot dir hdir

theorem nameable_location {tree : FileTree} {root : Path} (hnames : tree.Nameable root)
    (tag : String) : tree.Nameable (location root tag) := by
  intro dir hdir
  cases habsent : tree.pathExists (location root tag) with
  | true => simp [FileTree.missing_of_pathExists (Or.inr habsent)] at hdir
  | false =>
      obtain ⟨short, hparent, hsame⟩ := parent?_location root tag
      rw [FileTree.missing_eq_cons (location_isEmpty root tag) habsent,
        FileTree.missingAbove_of_parent? hparent] at hdir
      obtain rfl | hdir := List.mem_cons.mp hdir
      · obtain ⟨before, hpieces⟩ := pieces_location root tag
        exact ⟨before, _, FileTree.named_of_pieces hpieces (isName_namePrefix_append tag)⟩
      · cases hempty : short.isEmpty with
        | true => simp [FileTree.missing_of_pathExists (Or.inl hempty)] at hdir
        | false =>
            cases hshort : tree.pathExists short with
            | true => simp [FileTree.missing_of_pathExists (Or.inr hshort)] at hdir
            | false =>
                have hroot : tree.pathExists root = false :=
                  eq_false_of_ne_true fun h => by simp [hsame.pathExists hempty h] at hshort
                obtain ⟨before, name, hnamed⟩ := hnames.named (hsame.isEmpty hempty) hroot
                have hshortnamed : Named short before name := by
                  obtain ⟨pieces, _, -, hcore⟩ := Path.pieces_of_parent? hparent
                  have hpieces : short.pieces = Path.core ⟨short.absolute, pieces⟩ := by
                    rw [hcore]
                  exact hsame.named hpieces hnamed
                rw [FileTree.missing_eq_cons hempty hshort] at hdir
                obtain rfl | hdir := List.mem_cons.mp hdir
                · exact ⟨before, name, hshortnamed⟩
                · refine hnames dir ?_
                  rw [FileTree.missing_eq_cons (hsame.isEmpty hempty) hroot,
                    hsame.missingAbove hshortnamed]
                  exact List.mem_cons_of_mem root hdir

/-- A scratch directory that could be made is the lowest of exactly the directories that were. -/
theorem built_of_create {tree made : FileTree} {root : Path} {tag : String} {scratch : Scratch}
    (hrooted : tree.Rooted) (hnames : tree.Nameable root)
    (hfresh : tree.pathExists (location root tag) = false)
    (hcreate : create root tag tree = (.ok scratch, made)) :
    Built tree made (scratch.path :: scratch.made) := by
  obtain ⟨hmake, rfl⟩ := create_eq_ok hcreate
  exact built_of_missing hnames (FileTree.makeDirectories_eq_ok hrooted
    (nameable_location hnames tag) (location_isEmpty root tag) hmake) hfresh

theorem settled_of_built {tree made : FileTree} {root : Path} {tag : String} {scratch : Scratch}
    (hcreate : create root tag tree = (.ok scratch, made)) {dirs : List Path}
    (hbuilt : Built tree made (scratch.path :: dirs)) : Settled scratch made := by
  obtain ⟨-, rfl⟩ := create_eq_ok hcreate
  obtain ⟨before, hpieces⟩ := pieces_location root tag
  have hfound := (hbuilt.made _ List.mem_cons_self).found
  have hgoal := FileTree.goal_of_lookup hfound
  rw [← hgoal] at hfound
  exact settled_of_lookup (isName_namePrefix_append tag) hpieces hfound

/-- Removing the scratch directory and what was made for it undoes all that happened since. -/
theorem removed_of_confined {scratch : Scratch} {tree made later : FileTree}
    (hrooted : tree.Rooted) (hbuilt : Built tree made (scratch.path :: scratch.made))
    (hconfined : Confined (made.goal scratch.path) made later) : scratch.removed later = tree := by
  have hfound := (hbuilt.made scratch.path List.mem_cons_self).found
  have hgoal : made.goal scratch.path = tree.goal scratch.path :=
    FileTree.goal_of_lookup hfound
  rw [← hgoal] at hfound
  rw [removed_of_lookup (hconfined.lookup hfound), hconfined.goal, hconfined.outside, hgoal]
  exact retreat_of_built hrooted (built_prune hrooted hbuilt)

/-- One write after the other, whether they succeed or not. -/
def writeAll (scratch : Scratch) (writes : List (String × Content)) (tree : FileTree) : FileTree :=
  writes.foldl (fun tree entry => (scratch.write entry.1 entry.2 tree).2) tree

theorem Confined.writeAll {scratch : Scratch} {tree later : FileTree}
    (h : Confined (tree.goal scratch.path) tree later) (hsettled : Settled scratch tree)
    (writes : List (String × Content)) :
    Confined (tree.goal scratch.path) tree (scratch.writeAll writes later) := by
  induction writes generalizing later with
  | nil => exact h
  | cons entry writes ih => exact ih (h.write hsettled entry.1 entry.2)

/-- If all that is missing of the root ends in names, a scratch directory under it goes without a
trace, whatever was written, and one that cannot be made leaves at most directories that were
missing, and none if no name is too long. -/
theorem create_undone (tree : FileTree) (root : Path) (tag : String) (hrooted : tree.Rooted)
    (hnames : tree.Nameable root) (hfresh : tree.pathExists (location root tag) = false) :
    (∀ scratch made, create root tag tree = (.ok scratch, made) →
      ∀ writes journal, ((scratch.remove (scratch.writeAll writes made)).run journal).1 = tree) ∧
    (∀ e left, create root tag tree = (.error e, left) →
      ∃ dirs, dirs <:+ tree.missingAbove (location root tag) ∧
        left = tree.withDirectories dirs ∧
        ((∀ piece ∈ (location root tag).pieces, FileTree.Short piece) → left = tree)) := by
  constructor
  · intro scratch made hcreate writes journal
    have hbuilt := built_of_create hrooted hnames hfresh hcreate
    have hconfined := (Confined.refl (made.goal scratch.path) made).writeAll
      (settled_of_built hcreate hbuilt) writes
    rw [fst_run_remove]
    exact removed_of_confined hrooted hbuilt hconfined
  · intro e left hcreate
    obtain ⟨dirs, hsuffix, heq, hshort⟩ := FileTree.makeDirectories_eq_error hrooted
      (nameable_location hnames tag) (location_isEmpty root tag) (create_eq_error hcreate)
    refine ⟨dirs, hsuffix, heq, fun hall => ?_⟩
    rw [heq, hshort hall]
    rfl

def pairTree : FileTree :=
  ⟨[(["b"], .directory), (["f"], .file [])], []⟩

theorem rooted_pairTree : pairTree.Rooted := by
  intro location node hmem
  simp only [pairTree, List.mem_cons, List.not_mem_nil, or_false, Prod.mk.injEq] at hmem
  obtain ⟨rfl, rfl⟩ | ⟨rfl, rfl⟩ := hmem <;> exact ⟨List.cons_ne_nil _ _, rfl⟩

theorem nameable_of_missing {tree : FileTree} {root : Path} {before : List String} {name : String}
    (h : tree.missing root = [root]) (hnamed : Named root before name) : tree.Nameable root := by
  intro dir hdir
  rw [h] at hdir
  cases List.mem_singleton.mp hdir
  exact ⟨before, name, hnamed⟩

theorem create_undone_pairTree :
    (∃ scratch made, create ⟨false, ["b", "..", "new"]⟩ "tag" pairTree = (.ok scratch, made) ∧
      ((scratch.remove (scratch.writeAll [("x/y", ⟨[1], none⟩), ("..", ⟨[], none⟩)] made)).run
        {}).1 = pairTree) ∧
      ∃ left, create ⟨false, ["f", "new"]⟩ "tag" pairTree = (.error .notDirectory, left) ∧
        left = pairTree := by
  constructor
  · have hnames : pairTree.Nameable ⟨false, ["b", "..", "new"]⟩ :=
      nameable_of_missing (by decide +kernel)
        (FileTree.named_of_pieces (show _ = ["b", ".."] ++ ["new"] from rfl) (by decide +kernel))
    refine ⟨_, _, rfl, ?_⟩
    exact (create_undone _ _ "tag" rooted_pairTree hnames (by decide +kernel)).1 _ _ rfl _ _
  · have hnames : pairTree.Nameable ⟨false, ["f", "new"]⟩ :=
      nameable_of_missing (by decide +kernel)
        (FileTree.named_of_pieces (show _ = ["f"] ++ ["new"] from rfl) (by decide +kernel))
    refine ⟨_, rfl, ?_⟩
    obtain ⟨-, -, -, hleft⟩ :=
      (create_undone _ _ "tag" rooted_pairTree hnames (by decide +kernel)).2 _ _ rfl
    exact hleft (by decide +kernel)

/-- A reference to a parent that is missing itself: a directory that was there before goes, and
one that was made stays. -/
theorem create_not_undone_byReference :
    ∃ scratch made,
      create ⟨false, ["a", "..", "b"]⟩ "tag" ⟨[(["b"], .directory)], []⟩ = (.ok scratch, made) ∧
        ((scratch.remove made).run {}).1 = ⟨[(["a"], .directory)], []⟩ := by
  refine ⟨_, _, rfl, ?_⟩
  decide +kernel

end TableIntake.Scratch
