import Mathlib.Control.Monad.Basic
import TableIntake.Proofs.Files.Additions
import TableIntake.Proofs.Scratch.Undoing

namespace TableIntake

open TableIntake.Files

/-! Entries of a scratch directory: where their names lead, and what writing one leaves alone. -/

theorem Files.FileTree.readFile_eq_ok {tree : FileTree} {path : Path} {bytes : List UInt8} :
    tree.readFile path = .ok bytes ↔ tree.lookup path = .ok (tree.goal path, .file bytes) := by
  simp only [readFile, bind_eq_ok]
  constructor
  · rintro ⟨⟨location, node⟩, hlookup, hnode⟩
    cases node with
    | directory => cases hnode
    | file found =>
        cases hnode
        rw [goal_of_lookup hlookup]
        exact hlookup
  · intro hlookup
    exact ⟨_, hlookup, rfl⟩

namespace Scratch

/-- What stands between the slashes of an entry name. -/
def parts (name : String) : List String :=
  (Text.split '/' name.toList).map String.ofList

/-- The parts of an entry name that name something. -/
def namedParts (name : String) : List String :=
  (parts name).filter (!Path.isIdle ·)

/-- The name refers to a parent, or names nothing. -/
def Unfit (name : String) : Prop :=
  ".." ∈ parts name ∨ ∀ part ∈ parts name, Path.isIdle part = true

theorem entryPieces_eq (name : String) :
    entryPieces name =
      if ".." ∈ namedParts name then .error .escapes
      else if (namedParts name).isEmpty then .error .emptyName
      else .ok (namedParts name) := rfl

theorem entryPieces_of_unfit {name : String} (h : Unfit name) :
    ∃ e, entryPieces name = .error e ∧ e.isInvalidInput = true := by
  rw [entryPieces_eq]
  by_cases hparent : ".." ∈ namedParts name
  · exact ⟨.escapes, if_pos hparent, rfl⟩
  · have hnone : namedParts name = [] := by
      rcases h with hmem | hidle
      · exact absurd (List.mem_filter.mpr ⟨hmem, rfl⟩) hparent
      · exact List.filter_eq_nil_iff.mpr fun part hpart => by simp [hidle part hpart]
    exact ⟨.emptyName, by simp [hnone], rfl⟩

theorem entryPieces_of_fit {name : String} (h : ¬ Unfit name) :
    entryPieces name = .ok (namedParts name) := by
  obtain ⟨hparent, hidle⟩ := not_or.mp h
  have hnone : ".." ∉ namedParts name := fun hmem => hparent (List.mem_filter.mp hmem).1
  have hsome : namedParts name ≠ [] := by simpa [namedParts] using hidle
  rw [entryPieces_eq, if_neg hnone, if_neg (by simpa using hsome)]

theorem namedParts_of_entryPieces {name : String} {pieces : List String}
    (h : entryPieces name = .ok pieces) : pieces = namedParts name := by
  by_cases hunfit : Unfit name
  · obtain ⟨e, herror, -⟩ := entryPieces_of_unfit hunfit
    cases herror.symm.trans h
  · exact Except.ok.inj (h.symm.trans (entryPieces_of_fit hunfit))

/-- A path that ends in a name is carried on by names, piece by piece. -/
theorem foldl_child {path : Path} {before : List String} {name : String}
    (hname : FileTree.isName name = true) (hpath : path.pieces = before ++ [name])
    {pieces : List String} (hpieces : ∀ piece ∈ pieces, FileTree.isName piece = true) :
    pieces.foldl Path.child path = ⟨path.absolute, path.pieces ++ pieces⟩ := by
  induction pieces generalizing path before name with
  | nil => simp
  | cons piece pieces ih =>
      obtain ⟨hpiece, hrest⟩ := List.forall_mem_cons.mp hpieces
      have hchild := child_of_name hname hpath piece
      rw [List.foldl_cons, ih hpiece (by rw [hchild]) hrest, hchild, List.append_assoc]
      rfl

/-- What writing an entry leaves alone, and what comes of it. -/
structure Contained (scratch : Scratch) (name : String) (content : Content) (before : FileTree)
    (result : Except Error Path) (after : FileTree) : Prop where
  here : after.here = before.here
  outside : after.prune (before.goal scratch.path) = before.prune (before.goal scratch.path)
  directory : after.lookup scratch.path = .ok (before.goal scratch.path, .directory)
  refused : Unfit name → (∃ e, result = .error e ∧ e.isInvalidInput = true) ∧ after = before
  written : ∀ path, result = .ok path →
    path = ⟨scratch.path.absolute, scratch.path.pieces ++ namedParts name⟩ ∧
      content.fault = none ∧ after.readFile path = .ok content.bytes
  others : ∀ path bytes, before.readFile path = .ok bytes →
    before.goal path ≠ before.goal ⟨scratch.path.absolute, scratch.path.pieces ++ namedParts name⟩ →
      after.readFile path = .ok bytes

section Write

variable {scratch : Scratch} {before : FileTree} {name : String} {content : Content}

theorem write_of_unfit (h : Unfit name) :
    ∃ e, scratch.write name content before = (.error e, before) ∧ e.isInvalidInput = true := by
  obtain ⟨e, herror, hinvalid⟩ := entryPieces_of_unfit h
  exact ⟨e, by simp only [write, herror], hinvalid⟩

/-- A file that an entry does not lead to is the same after the entry was written. -/
theorem readFile_write {path : Path} {bytes : List UInt8}
    (hread : before.readFile path = .ok bytes)
    (hne : before.goal path ≠ scratch.spot before (namedParts name)) :
    (scratch.write name content before).2.readFile path = .ok bytes := by
  rw [FileTree.readFile_eq_ok] at hread ⊢
  cases hfilled : scratch.filled? name content before with
  | none => exact (write_of_filled?_none hfilled).2.lookup hread
  | some found =>
      rw [← namedParts_of_entryPieces (entryPieces_of_filled? hfilled)] at hne
      exact (write_of_filled? hfilled).2.1.lookup hread hne

/-- What holds of writing an entry to a scratch directory that is there. -/
theorem contained_write {pieces : List String} {last : String}
    (hlast : FileTree.isName last = true) (hpieces : scratch.path.pieces = pieces ++ [last])
    (hfound : before.lookup scratch.path = .ok (before.goal scratch.path, .directory))
    (name : String) (content : Content) :
    Contained scratch name content before (scratch.write name content before).1
      (scratch.write name content before).2 := by
  have hconfined := (Confined.refl (before.goal scratch.path) before).write
    (settled_of_lookup hlast hpieces hfound) name content
  have hlater := hconfined.lookup hfound
  rw [hconfined.goal] at hlater
  by_cases hunfit : Unfit name
  · obtain ⟨e, hwrite, hinvalid⟩ :
        ∃ e, scratch.write name content before = (.error e, before) ∧ e.isInvalidInput = true :=
      write_of_unfit hunfit
    rw [hwrite]
    exact {
      here := rfl
      outside := rfl
      directory := hfound
      refused := fun _ => ⟨⟨e, rfl, hinvalid⟩, rfl⟩
      written := nofun
      others := fun _ _ hread _ => hread }
  · have hnames := isName_of_entryPieces (entryPieces_of_fit hunfit)
    have hpath : scratch.entryPath (namedParts name) =
        ⟨scratch.path.absolute, scratch.path.pieces ++ namedParts name⟩ :=
      foldl_child hlast hpieces hnames
    refine ⟨hconfined.here, hconfined.outside, hlater, fun h => absurd h hunfit, ?_, ?_⟩
    · intro path hresult
      obtain ⟨found, hfilled, hfault, rfl⟩ := write_eq_ok hresult
      obtain rfl := namedParts_of_entryPieces (entryPieces_of_filled? hfilled)
      exact ⟨hpath, hfault, (contains_of_filled? hfilled).readFile⟩
    · intro path bytes hread hne
      rw [← hpath, goal_entryPath scratch before hnames] at hne
      exact readFile_write hread hne

end Write

/-- Whatever was written before, writing an entry changes nothing outside of the scratch directory
and leaves it a directory. A name that refers to a parent or names nothing is refused. A path that
comes back is that of the parts of the name that name something, the file there holds all that was
to be written, and every other file holds what it held. -/
theorem write_contained {root : Path} {tag : String} {tree made : FileTree} {scratch : Scratch}
    (hcreate : create root tag tree = (.ok scratch, made)) (earlier : List (String × Content))
    (name : String) (content : Content) :
    Contained scratch name content (scratch.writeAll earlier made)
      (scratch.write name content (scratch.writeAll earlier made)).1
      (scratch.write name content (scratch.writeAll earlier made)).2 := by
  obtain ⟨hmake, hscratch⟩ := create_eq_ok hcreate
  have hpath : scratch.path = location root tag := by rw [hscratch]
  obtain ⟨before, hpieces⟩ := pieces_location root tag
  have hname := isName_namePrefix_append tag
  have hfound := FileTree.lookup_of_makeDirectories (location_isEmpty root tag) hmake
  rw [← hpath] at hpieces hfound
  have hconfined := (Confined.refl (made.goal scratch.path) made).writeAll
    (settled_of_lookup hname hpieces hfound) earlier
  exact contained_write hname hpieces (hconfined.lookup hfound) name content

theorem write_contained_sibling :
    ∃ scratch made before,
      create ⟨false, ["b", "..", "new"]⟩ "tag" pairTree = (.ok scratch, made) ∧
      scratch.writeAll [("x/z", ⟨[1], none⟩)] made = before ∧
      (scratch.write "x//./y" ⟨[2], none⟩ before).2.readFile
        ⟨false, ["b", "..", "new", "ingestguard-tag", "x", "z"]⟩ = .ok [1] ∧
      (scratch.write "x/../y" ⟨[2], none⟩ before).2 = before := by
  have hcreate : create ⟨false, ["b", "..", "new"]⟩ "tag" pairTree =
      (.ok ⟨⟨false, ["b", "..", "new", "ingestguard-tag"]⟩, [⟨false, ["b", "..", "new"]⟩]⟩,
        ⟨[(["ingestguard-tag", "new"], .directory), (["new"], .directory), (["b"], .directory),
          (["f"], .file [])], []⟩) := by decide +kernel
  have hcontained := write_contained hcreate [("x/z", ⟨[1], none⟩)]
  refine ⟨_, _, _, hcreate, rfl, ?_, ?_⟩
  · exact (hcontained "x//./y" ⟨[2], none⟩).others _ _ (by decide +kernel) (by decide +kernel)
  · exact ((hcontained "x/../y" ⟨[2], none⟩).refused (Or.inl (by decide +kernel))).2

end Scratch

end TableIntake
