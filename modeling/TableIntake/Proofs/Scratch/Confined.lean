import TableIntake.Proofs.Files.Naming
import TableIntake.Proofs.Scratch.Writes

namespace TableIntake.Scratch

open TableIntake.Files

/-! Writes stay in the scratch directory, whether they succeed or not. -/

/-- Nothing is changed outside of the directory, and no directory is gone. -/
structure Confined (location : Location) (tree later : FileTree) : Prop where
  here : later.here = tree.here
  outside : later.prune location = tree.prune location
  kept : ∀ l, tree.find? l = some .directory → later.find? l = some .directory

namespace Confined

variable {location place : Location} {tree later : FileTree}

theorem refl (location : Location) (tree : FileTree) : Confined location tree tree :=
  ⟨rfl, rfl, fun _ h => h⟩

theorem goal (h : Confined location tree later) (path : Path) :
    later.goal path = tree.goal path :=
  FileTree.goal_of_here h.here path

theorem find? (h : Confined location tree later) {l : Location} (hout : ¬ location <:+ l) :
    later.find? l = tree.find? l := by
  rw [← later.find?_prune_of_not_suffix hout, h.outside, tree.find?_prune_of_not_suffix hout]

theorem lookup (h : Confined location tree later) {path : Path}
    (hlookup : tree.lookup path = .ok (tree.goal path, .directory)) :
    later.lookup path = .ok (later.goal path, .directory) := by
  obtain ⟨hcheck, hopen, -, hfind⟩ := FileTree.lookup_eq_ok.mp hlookup
  refine FileTree.lookup_eq_ok.mpr ⟨hcheck, ?_, rfl, ?_⟩
  · rw [FileTree.start_of_here h.here]
    exact hopen.mono h.kept
  · rw [h.goal]
    exact h.kept _ hfind

theorem insert (h : Confined location tree later) (hbeneath : location <:+ place)
    (hnone : later.find? place = none) (node : Node) :
    Confined location tree (later.insert place node) where
  here := h.here
  outside := by
    rw [← h.outside]
    have hcut : location.isSuffixOf place = true := List.isSuffixOf_iff_suffix.mpr hbeneath
    simp [FileTree.prune, FileTree.insert, hcut]
  kept := fun l hl => (FileTree.keeps_insert node hnone).found l _ (h.kept l hl)

theorem replace (h : Confined location tree later) (hbeneath : location <:+ place)
    {old : List UInt8} (hfile : later.find? place = some (.file old)) (node : Node) :
    Confined location tree (later.replace place node) where
  here := h.here
  outside := by
    rw [← h.outside]
    simp only [FileTree.prune, FileTree.replace, FileTree.mk.injEq, and_true]
    induction later.nodes with
    | nil => rfl
    | cons entry nodes ih =>
        obtain ⟨l, n⟩ := entry
        by_cases hl : l = place
        · have hcut : location.isSuffixOf place = true :=
            List.isSuffixOf_iff_suffix.mpr hbeneath
          simp [hl, hcut, ih]
        · simp [hl, List.filter_cons, ih]
  kept := fun l hl => (FileTree.keepsBut_replace hfile node).directory l (h.kept l hl)

/-- What is missing of a path is beneath the directory, if all that is above the path is there or
beneath the directory. -/
theorem makeDirectories (h : Confined location tree later) {path : Path}
    (habove : ∀ dir ∈ path.ancestors,
      tree.find? (tree.goal dir) = some .directory ∨ location <:+ tree.goal dir) :
    Confined location tree (later.makeDirectories path).2 := by
  refine FileTree.makeChain_induction (motive := Confined location tree) _ ?_ h
  intro dir hdir before made hbefore hmake
  obtain ⟨-, -, -, -, -, hnone, rfl⟩ := FileTree.makeDirectory_eq_ok hmake
  rcases habove dir ((List.takeWhile_sublist _).subset hdir) with hthere | hbeneath
  · rw [hbefore.goal dir] at hnone
    cases hnone.symm.trans (hbefore.kept _ hthere)
  · rw [← hbefore.goal dir] at hbeneath
    exact hbefore.insert hbeneath hnone .directory

theorem writeFile (h : Confined location tree later) {path : Path} {bytes : List UInt8}
    {last : FileTree} (hbeneath : location <:+ tree.goal path)
    (hwrite : later.writeFile path bytes = .ok last) : Confined location tree last := by
  rw [← h.goal path] at hbeneath
  obtain ⟨-, -, -, ⟨hnone, rfl⟩ | ⟨old, hfile, rfl⟩⟩ := FileTree.writeFile_eq_ok hwrite
  · exact h.insert hbeneath hnone _
  · exact h.replace hbeneath hfile _

end Confined

theorem child_of_name {path : Path} {before : List String} {name : String}
    (hname : FileTree.isName name = true) (h : path.pieces = before ++ [name]) (next : String) :
    path.child next = ⟨path.absolute, path.pieces ++ [next]⟩ := by
  have hne : name ≠ "" := by
    rintro rfl
    cases hname
  unfold Path.child
  split
  case h_1 rest hrest =>
      rw [h, List.reverse_append] at hrest
      exact absurd (List.cons.inj hrest).1 hne
  case h_2 => simp

theorem parent?_child {path : Path} {before : List String} {name next : String}
    (hname : FileTree.isName name = true) (h : path.pieces = before ++ [name])
    (hnext : FileTree.isName next = true) : (path.child next).parent? = some path := by
  have hchild := child_of_name hname h next
  have hcore : (path.child next).core = path.pieces ++ [next] :=
    Path.core_of_name (fun _ hpiece => absurd hpiece List.not_mem_nil)
      (FileTree.not_idle_of_isName hnext).1 (by rw [hchild])
  have hsame : Path.core ⟨path.absolute, path.pieces⟩ = before ++ [name] :=
    Path.core_of_name (fun _ hpiece => absurd hpiece List.not_mem_nil)
      (FileTree.not_idle_of_isName hname).1 h
  rw [Path.parent?_of_core hcore, hchild]
  simp only
  rw [hsame, ← h]

theorem above_children {tree : FileTree} {location : Location} {path : Path}
    {before : List String} {name : String} (hname : FileTree.isName name = true)
    (hpieces : path.pieces = before ++ [name]) (hbeneath : location <:+ tree.goal path)
    (habove : ∀ dir ∈ path.ancestors,
      tree.find? (tree.goal dir) = some .directory ∨ location <:+ tree.goal dir)
    {pieces : List String} (hnames : ∀ piece ∈ pieces, FileTree.isName piece = true) :
    ∀ dir ∈ (pieces.foldl Path.child path).ancestors,
      tree.find? (tree.goal dir) = some .directory ∨ location <:+ tree.goal dir := by
  induction pieces generalizing path before name with
  | nil => exact habove
  | cons piece pieces ih =>
      obtain ⟨hpiece, hrest⟩ := List.forall_mem_cons.mp hnames
      have hbelow : location <:+ tree.goal (path.child piece) := by
        rw [FileTree.goal_child, FileTree.hop_of_isName hpiece]
        exact hbeneath.trans (List.suffix_cons piece _)
      have hchild : (path.child piece).pieces = path.pieces ++ [piece] := by
        rw [child_of_name hname hpieces]
      refine ih hpiece hchild hbelow ?_ hrest
      intro dir hdir
      rw [Path.ancestors_eq, parent?_child hname hpieces hpiece] at hdir
      obtain rfl | hdir := List.mem_cons.mp hdir
      · exact Or.inr hbelow
      · exact habove dir hdir

/-- All that is above an entry of the scratch directory is there or beneath the directory. -/
def Settled (scratch : Scratch) (tree : FileTree) : Prop :=
  ∀ pieces, (∀ piece ∈ pieces, FileTree.isName piece = true) →
    ∀ dir ∈ (scratch.entryPath pieces).ancestors,
      tree.find? (tree.goal dir) = some .directory ∨ tree.goal scratch.path <:+ tree.goal dir

/-- A scratch directory that is there, under the name its path ends in, is settled. -/
theorem settled_of_lookup {scratch : Scratch} {tree : FileTree} {before : List String}
    {name : String} (hname : FileTree.isName name = true)
    (hpieces : scratch.path.pieces = before ++ [name])
    (hfound : tree.lookup scratch.path = .ok (tree.goal scratch.path, .directory)) :
    Settled scratch tree := by
  have hne : scratch.path.isEmpty = false := by simp [Path.isEmpty, hpieces]
  exact fun pieces hnames => above_children hname hpieces List.suffix_rfl
    (fun dir hdir => Or.inl (FileTree.found_of_mem_ancestors hne hfound dir hdir).1) hnames

theorem Confined.write {scratch : Scratch} {tree later : FileTree}
    (h : Confined (tree.goal scratch.path) tree later) (hsettled : Settled scratch tree)
    (name : String) (content : Content) :
    Confined (tree.goal scratch.path) tree (scratch.write name content later).2 := by
  rcases scratch.write_steps name content later with hsame | ⟨pieces, hpieces, hsteps⟩
  · rwa [hsame]
  · have hnames := isName_of_entryPieces hpieces
    have hinit : ∀ piece ∈ pieces.dropLast, FileTree.isName piece = true :=
      fun piece hpiece => hnames piece ((List.dropLast_sublist pieces).subset hpiece)
    have hparent := h.makeDirectories (hsettled _ hinit)
    rcases hsteps with hmade | ⟨-, hwrite⟩
    · rwa [hmade]
    · refine hparent.writeFile ?_ hwrite
      rw [goal_entryPath scratch tree hnames]
      exact List.suffix_append _ _

end TableIntake.Scratch
