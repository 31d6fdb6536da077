import TableIntake.Scratch
import TableIntake.Proofs.Files.Changes

namespace TableIntake.Files.FileTree

/-! Paths of names beneath a directory. -/

theorem child_append (path : Path) (name : String) :
    ∃ before slashes, (∀ piece ∈ slashes, Path.isIdle piece = true) ∧
      path.pieces = before ++ slashes ∧ path.child name = ⟨path.absolute, before ++ [name]⟩ := by
  unfold Path.child
  split
  case h_1 rest hrest =>
      refine ⟨rest.reverse, [""], ?_, ?_, ?_⟩
      · intro piece hpiece
        rw [List.mem_singleton.mp hpiece]
        rfl
      · rw [← List.reverse_cons, ← hrest, List.reverse_reverse]
      · rw [List.reverse_cons]
  case h_2 =>
      refine ⟨path.pieces, [], fun _ hpiece => absurd hpiece List.not_mem_nil,
        (List.append_nil _).symm, ?_⟩
      rw [List.reverse_cons, List.reverse_reverse]

theorem goal_child (tree : FileTree) (path : Path) (name : String) :
    tree.goal (path.child name) = hop (tree.goal path) name := by
  obtain ⟨before, slashes, hslashes, hpieces, hchild⟩ := child_append path name
  rw [hchild]
  unfold goal start
  rw [hpieces, place_append, place_append, place_of_idle hslashes, place_cons, place_nil]

theorem goal_foldl_child (tree : FileTree) (pieces : List String) (path : Path) :
    tree.goal (pieces.foldl Path.child path) = place (tree.goal path) pieces := by
  induction pieces generalizing path with
  | nil => rfl
  | cons piece pieces ih =>
      rw [List.foldl_cons, ih, goal_child, place_cons]

end TableIntake.Files.FileTree

namespace TableIntake.Scratch

open TableIntake.Files
open TableIntake.Files.FileTree (Keeps KeepsBut)

/-! Writes: which file an entry goes to, and what is in it afterwards. -/

theorem isName_of_entryPieces {name : String} {pieces : List String}
    (h : entryPieces name = .ok pieces) : ∀ piece ∈ pieces, FileTree.isName piece = true := by
  simp only [entryPieces] at h
  split at h
  case isTrue => cases h
  case isFalse hparent =>
      split at h
      case isTrue => cases h
      case isFalse =>
          cases h
          intro piece hpiece
          have hidle := (List.mem_filter.mp hpiece).2
          have hne : piece ≠ ".." := fun heq => hparent (heq ▸ hpiece)
          simpa [FileTree.isName, hne] using hidle

def entryPath (scratch : Scratch) (pieces : List String) : Path :=
  pieces.foldl Path.child scratch.path

/-- Where the pieces of an entry name lead beneath the scratch directory. -/
def spot (scratch : Scratch) (tree : FileTree) (pieces : List String) : Location :=
  pieces.reverse ++ tree.goal scratch.path

theorem goal_entryPath (scratch : Scratch) (tree : FileTree) {pieces : List String}
    (h : ∀ piece ∈ pieces, FileTree.isName piece = true) :
    tree.goal (scratch.entryPath pieces) = scratch.spot tree pieces := by
  unfold entryPath spot
  rw [FileTree.goal_foldl_child, FileTree.place_of_isName h]

theorem spot_inj {scratch : Scratch} {tree : FileTree} {pieces other : List String} :
    scratch.spot tree pieces = scratch.spot tree other ↔ pieces = other := by
  unfold spot
  rw [List.append_cancel_right_eq, List.reverse_inj]

/-- The pieces of the file that writing an entry fills. It may be filled with less than all there
is, when what it is filled with cannot be read to its end. -/
def filled? (scratch : Scratch) (name : String) (content : Content) (tree : FileTree) :
    Option (List String) :=
  match entryPieces name with
  | .error _ => none
  | .ok pieces =>
      match tree.makeDirectories (scratch.entryPath pieces.dropLast) with
      | (.error _, _) => none
      | (.ok (), tree) =>
          match tree.writeFile (scratch.entryPath pieces) content.bytes with
          | .error _ => none
          | .ok _ => some pieces

theorem entryPieces_of_filled? {scratch : Scratch} {name : String} {content : Content}
    {tree : FileTree} {pieces : List String}
    (h : scratch.filled? name content tree = some pieces) : entryPieces name = .ok pieces := by
  unfold filled? at h
  cases hpieces : entryPieces name with
  | error e => simp [hpieces] at h
  | ok found =>
      simp only [hpieces] at h
      split at h
      case h_1 => cases h
      case h_2 =>
          split at h
          case h_1 => cases h
          case h_2 =>
              cases h
              rfl

/-- What a write does to the tree: it makes the directories of its entry, and fills the file. -/
theorem write_steps (scratch : Scratch) (name : String) (content : Content) (tree : FileTree) :
    (scratch.write name content tree).2 = tree ∨
      ∃ pieces, entryPieces name = .ok pieces ∧
        ((scratch.write name content tree).2 =
            (tree.makeDirectories (scratch.entryPath pieces.dropLast)).2 ∨
          scratch.filled? name content tree = some pieces ∧
            (tree.makeDirectories (scratch.entryPath pieces.dropLast)).2.writeFile
              (scratch.entryPath pieces) content.bytes =
                .ok (scratch.write name content tree).2) := by
  unfold write filled? entryPath
  cases hpieces : entryPieces name with
  | error e => exact Or.inl rfl
  | ok pieces =>
      refine Or.inr ⟨pieces, rfl, ?_⟩
      simp only
      rcases hmake : tree.makeDirectories (pieces.dropLast.foldl Path.child scratch.path) with
        ⟨result, made⟩
      cases result with
      | error e => exact Or.inl rfl
      | ok u =>
          cases hwrite : made.writeFile (pieces.foldl Path.child scratch.path) content.bytes with
          | error e => simp [hwrite]
          | ok later =>
              right
              cases content.fault <;> simp [hwrite]

/-- A write that fills no file fails, and takes nothing away. -/
theorem write_of_filled?_none {scratch : Scratch} {name : String} {content : Content}
    {tree : FileTree} (h : scratch.filled? name content tree = none) :
    (∃ e, (scratch.write name content tree).1 = .error e) ∧
      Keeps tree (scratch.write name content tree).2 := by
  unfold filled? at h
  unfold write
  cases hpieces : entryPieces name with
  | error e => exact ⟨⟨e, rfl⟩, Keeps.refl tree⟩
  | ok pieces =>
      simp only [hpieces] at h ⊢
      have hkeeps := FileTree.keeps_makeDirectories tree (scratch.entryPath pieces.dropLast)
      unfold entryPath at h hkeeps
      rcases hmake : tree.makeDirectories (pieces.dropLast.foldl Path.child scratch.path) with
        ⟨result, made⟩
      rw [hmake] at hkeeps
      cases result with
      | error e => exact ⟨⟨e, rfl⟩, hkeeps⟩
      | ok u =>
          simp only [hmake] at h ⊢
          cases hwrite : made.writeFile (pieces.foldl Path.child scratch.path) content.bytes with
          | error e => exact ⟨⟨e, rfl⟩, hkeeps⟩
          | ok later => simp [hwrite] at h

/-- A write that fills a file takes nothing else away, and fails only if its content does. -/
theorem write_of_filled? {scratch : Scratch} {name : String} {content : Content}
    {tree : FileTree} {pieces : List String}
    (h : scratch.filled? name content tree = some pieces) :
    (scratch.write name content tree).1 =
        (match content.fault with
          | some reason => .error (.fault reason)
          | none => .ok (scratch.entryPath pieces)) ∧
      KeepsBut (scratch.spot tree pieces) tree (scratch.write name content tree).2 ∧
      (scratch.write name content tree).2.lookup (scratch.entryPath pieces) =
        .ok (scratch.spot tree pieces, .file content.bytes) := by
  have hpieces := entryPieces_of_filled? h
  unfold filled? at h
  unfold write
  simp only [hpieces] at h ⊢
  have hmade := FileTree.keeps_makeDirectories tree (scratch.entryPath pieces.dropLast)
  rcases hmake : tree.makeDirectories (scratch.entryPath pieces.dropLast) with ⟨result, made⟩
  rw [hmake] at hmade
  cases result with
  | error e => simp [hmake] at h
  | ok u =>
      cases hwrite : made.writeFile (scratch.entryPath pieces) content.bytes with
      | error e => simp [hmake, hwrite] at h
      | ok later =>
          obtain ⟨hkeeps, hlookup⟩ := FileTree.writeFile_spec hwrite
          have hgoal : made.goal (scratch.entryPath pieces) = scratch.spot tree pieces := by
            rw [hmade.goal, scratch.goal_entryPath tree (isName_of_entryPieces hpieces)]
          rw [hgoal] at hkeeps hlookup
          unfold entryPath at hmake hwrite hlookup ⊢
          simp only [hmake, hwrite]
          cases content.fault with
          | none => exact ⟨rfl, (hmade.but _).trans hkeeps, hlookup⟩
          | some reason => exact ⟨rfl, (hmade.but _).trans hkeeps, hlookup⟩

theorem write_eq_ok {scratch : Scratch} {name : String} {content : Content} {tree : FileTree}
    {path : Path} (h : (scratch.write name content tree).1 = .ok path) :
    ∃ pieces, scratch.filled? name content tree = some pieces ∧ content.fault = none ∧
      path = scratch.entryPath pieces := by
  cases hfilled : scratch.filled? name content tree with
  | none =>
      obtain ⟨⟨e, herror⟩, -⟩ := write_of_filled?_none hfilled
      cases herror.symm.trans h
  | some pieces =>
      have hresult := h.symm.trans (write_of_filled? hfilled).1
      cases hfault : content.fault with
      | some reason => simp [hfault] at hresult
      | none =>
          simp only [hfault] at hresult
          exact ⟨pieces, rfl, rfl, Except.ok.inj hresult⟩

/-- The file of the pieces is there, with the bytes in it. -/
def Contains (scratch : Scratch) (tree : FileTree) (pieces : List String)
    (bytes : List UInt8) : Prop :=
  tree.lookup (scratch.entryPath pieces) =
    .ok (tree.goal (scratch.entryPath pieces), .file bytes)

theorem Contains.readFile {scratch : Scratch} {tree : FileTree} {pieces : List String}
    {bytes : List UInt8} (h : scratch.Contains tree pieces bytes) :
    tree.readFile (scratch.entryPath pieces) = .ok bytes := by
  rw [FileTree.readFile, h]
  rfl

theorem contains_of_filled? {scratch : Scratch} {name : String} {content : Content}
    {tree : FileTree} {pieces : List String}
    (h : scratch.filled? name content tree = some pieces) :
    scratch.Contains (scratch.write name content tree).2 pieces content.bytes := by
  obtain ⟨-, hkeeps, hlookup⟩ := write_of_filled? h
  have hnames := isName_of_entryPieces (entryPieces_of_filled? h)
  unfold Contains
  rw [hkeeps.goal, scratch.goal_entryPath tree hnames]
  exact hlookup

/-- A write changes what a file holds only by filling it. -/
theorem Contains.write {scratch : Scratch} {tree : FileTree} {pieces : List String}
    {bytes : List UInt8} (h : scratch.Contains tree pieces bytes)
    (hnames : ∀ piece ∈ pieces, FileTree.isName piece = true) (name : String)
    (content : Content) :
    scratch.Contains (scratch.write name content tree).2 pieces
      (if scratch.filled? name content tree = some pieces then content.bytes else bytes) := by
  have hgoal := scratch.goal_entryPath tree hnames
  cases hfilled : scratch.filled? name content tree with
  | none => exact (write_of_filled?_none hfilled).2.lookup h
  | some other =>
      by_cases heq : other = pieces
      · subst heq
        rw [if_pos rfl]
        exact contains_of_filled? hfilled
      · rw [if_neg fun hsome => heq (Option.some.inj hsome)]
        refine (write_of_filled? hfilled).2.1.lookup h ?_
        rw [hgoal]
        exact fun hspot => heq (spot_inj.mp hspot).symm

end TableIntake.Scratch
