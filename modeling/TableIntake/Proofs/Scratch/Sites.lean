import Mathlib.Data.List.Nodup
import TableIntake.Proofs.Files.Additions
import TableIntake.Proofs.Scratch.Undoing
import TableIntake.Scratch.Pool

namespace TableIntake.Scratch

open TableIntake.Files
open TableIntake.Files.FileTree (Keeps)

/-! Sites: where scratch directories are made, and how far they are from each other. -/

structure Site where
  tag : String
  root : Path
  deriving DecidableEq, Repr

def Site.path (site : Site) : Path :=
  location site.root site.tag

/-- Tags are drawn at random: no two sites have the same, and there is nothing yet where they lead.
No root refers to a parent, and none is in a directory that is made for a site. -/
structure Apart (tree : FileTree) (sites : List Site) : Prop where
  tags : (sites.map Site.tag).Nodup
  fresh : ∀ site ∈ sites, tree.find? (tree.goal site.path) = none
  down : ∀ site ∈ sites, ".." ∉ site.root.pieces
  outside : ∀ site ∈ sites, ∀ other ∈ sites, ¬ tree.goal site.path <:+ tree.goal other.root

theorem location_down {root : Path} (hdown : ".." ∉ root.pieces) (tag : String) :
    ".." ∉ (location root tag).pieces := by
  obtain ⟨before, slashes, -, hpieces, hchild⟩ := FileTree.child_append root (namePrefix ++ tag)
  rw [hpieces, List.mem_append, not_or] at hdown
  have hname := (FileTree.not_idle_of_isName (isName_namePrefix_append tag)).2
  rw [location, hchild, List.mem_append, List.mem_singleton]
  exact not_or.mpr ⟨hdown.1, hname.symm⟩

namespace Apart

variable {tree : FileTree} {sites : List Site} {site other : Site}

theorem eq_of_tag (h : Apart tree sites) (hsite : site ∈ sites) (hother : other ∈ sites)
    (htag : site.tag = other.tag) : site = other :=
  List.inj_on_of_nodup_map h.tags hsite hother htag

/-- What is above the directory of one site is not in the directory of another. -/
theorem not_suffix (h : Apart tree sites) (hsite : site ∈ sites) (hother : other ∈ sites)
    (htag : site.tag ≠ other.tag) : ¬ tree.goal site.path <:+ tree.goal other.path := by
  have hpath : tree.goal other.path = (namePrefix ++ other.tag) :: tree.goal other.root :=
    goal_location tree other.root other.tag
  rw [hpath]
  intro hsuffix
  rcases List.suffix_cons_iff.mp hsuffix with heq | hroot
  · have hsame : (namePrefix ++ site.tag) :: tree.goal site.root = _ :=
      (goal_location tree site.root site.tag).symm.trans heq
    exact htag ((String.append_right_inj namePrefix).mp (List.cons.inj hsame).1)
  · exact h.outside site hsite other hother hroot

theorem tag_ne (h : Apart tree (sites ++ [site])) (hother : other ∈ sites) :
    other.tag ≠ site.tag := by
  have htags := h.tags
  rw [List.map_append, List.nodup_append] at htags
  exact htags.2.2 _ (List.mem_map_of_mem hother) _ (List.mem_singleton_self _)

theorem of_sublist {fewer : List Site} (h : Apart tree sites) (hfewer : fewer.Sublist sites) :
    Apart tree fewer where
  tags := (hfewer.map Site.tag).nodup h.tags
  fresh := fun site hsite => h.fresh site (hfewer.subset hsite)
  down := fun site hsite => h.down site (hfewer.subset hsite)
  outside := fun site hsite other hother =>
    h.outside site (hfewer.subset hsite) other (hfewer.subset hother)

end Apart

theorem tree_of_create {root : Path} {tag : String} {tree later : FileTree}
    {result : Except Error Scratch} (h : create root tag tree = (result, later)) :
    later = (tree.makeDirectories (location root tag)).2 := by
  cases result with
  | error e => rw [create_eq_error h]
  | ok scratch => rw [(create_eq_ok h).1]

/-- What making a scratch directory adds are directories, and nothing beneath itself. -/
theorem find?_of_create {root : Path} {tag : String} {tree later : FileTree}
    {result : Except Error Scratch} (hdown : ".." ∉ root.pieces)
    (h : create root tag tree = (result, later)) {l : Location} {node : Node}
    (hfind : later.find? l = some node) :
    tree.find? l = some node ∨
      node = .directory ∧ l <:+ tree.goal (location root tag) := by
  rw [tree_of_create h] at hfind
  refine (FileTree.find?_of_makeChain hfind).imp_right ?_
  rintro ⟨hnode, dir, hdir, rfl⟩
  have hmem : dir ∈ (location root tag).ancestors := (List.takeWhile_sublist _).subset hdir
  exact ⟨hnode, (tree.goal_of_mem_ancestors (location_down hdown tag) dir hmem).1⟩

/-- A scratch directory that cannot be made leaves at most directories above it. -/
theorem find?_of_create_error {root : Path} {tag : String} {tree left : FileTree} {e : Error}
    (hdown : ".." ∉ root.pieces) (h : create root tag tree = (.error e, left)) {l : Location}
    {node : Node} (hfind : left.find? l = some node) :
    tree.find? l = some node ∨ node = .directory ∧ l <:+ tree.goal root := by
  obtain ⟨short, hparent, hsame⟩ := parent?_location root tag
  have hchain := create_eq_error h
  rw [FileTree.makeDirectories] at hchain
  change tree.makeChain (FileTree.needed (location root tag)) = _ at hchain
  rw [FileTree.needed_eq_cons (location_isEmpty root tag), hparent] at hchain
  rcases FileTree.makeChain_of_error hchain with rfl | rfl
  · exact Or.inl hfind
  · refine (FileTree.find?_of_makeChain hfind).imp_right ?_
    rintro ⟨hnode, dir, hdir, rfl⟩
    have hmem : dir ∈ short.ancestors := (List.takeWhile_sublist _).subset hdir
    have hshort := FileTree.parents_of_parent? hparent (location_down hdown tag)
    rw [hsame.goal]
    exact ⟨hnode, (tree.goal_of_mem_ancestors hshort dir hmem).1⟩

theorem keeps_of_create {root : Path} {tag : String} {tree later : FileTree}
    {result : Except Error Scratch} (h : create root tag tree = (result, later)) :
    Keeps tree later := by
  rw [tree_of_create h]
  exact FileTree.keeps_makeDirectories tree _

theorem rooted_of_create {root : Path} {tag : String} {tree later : FileTree}
    {result : Except Error Scratch} (hrooted : tree.Rooted)
    (h : create root tag tree = (result, later)) : later.Rooted := by
  rw [tree_of_create h]
  exact hrooted.makeDirectories _

/-- Nothing was there of the directories that are recorded as made for a scratch directory. -/
theorem find?_of_made {root : Path} {tag : String} {tree made : FileTree} {scratch : Scratch}
    (hrooted : tree.Rooted) (hdown : ".." ∉ root.pieces)
    (h : create root tag tree = (.ok scratch, made)) {dir : Path} (hdir : dir ∈ scratch.made) :
    tree.find? (tree.goal dir) = none ∧ tree.goal dir <:+ tree.goal root := by
  obtain ⟨hmake, rfl⟩ := create_eq_ok h
  have hfound := FileTree.lookup_of_makeDirectories (location_isEmpty root tag) hmake
  exact ⟨hrooted.find?_of_mem_missing (keeps_of_create h) hdown
    (FileTree.lookup_of_child hfound) hdir, (FileTree.goal_of_mem_missing hdown hdir).1⟩

theorem rooted_write {tree : FileTree} (hrooted : tree.Rooted) (scratch : Scratch)
    (name : String) (content : Content) : (scratch.write name content tree).2.Rooted := by
  rcases scratch.write_steps name content tree with hsame | ⟨pieces, -, hmade | ⟨-, hwrite⟩⟩
  · rwa [hsame]
  · rw [hmade]
    exact hrooted.makeDirectories _
  · exact (hrooted.makeDirectories _).writeFile hwrite

theorem file_of_makeDirectories {tree : FileTree} {path : Path} {l : Location}
    {bytes : List UInt8} (h : (tree.makeDirectories path).2.find? l = some (.file bytes)) :
    tree.find? l = some (.file bytes) := by
  rcases FileTree.find?_of_makeChain h with hold | ⟨hnode, -⟩
  · exact hold
  · cases hnode

/-- A write puts bytes into no file but the one that it fills. -/
theorem file_of_write {scratch : Scratch} {name : String} {content : Content} {tree : FileTree}
    {l : Location} {bytes : List UInt8}
    (h : (scratch.write name content tree).2.find? l = some (.file bytes)) :
    tree.find? l = some (.file bytes) ∨
      ∃ pieces, scratch.filled? name content tree = some pieces ∧
        l = scratch.spot tree pieces := by
  rcases scratch.write_steps name content tree with hsame | ⟨pieces, hpieces, hmade | hsteps⟩
  · rw [hsame] at h
    exact Or.inl h
  · rw [hmade] at h
    exact Or.inl (file_of_makeDirectories h)
  · obtain ⟨hfilled, hwrite⟩ := hsteps
    have hgoal := (FileTree.keeps_makeDirectories tree
      (scratch.entryPath pieces.dropLast)).goal (scratch.entryPath pieces)
    rw [scratch.goal_entryPath tree (isName_of_entryPieces hpieces)] at hgoal
    obtain ⟨-, -, -, ⟨-, hlater⟩ | ⟨old, -, hlater⟩⟩ := FileTree.writeFile_eq_ok hwrite
    · rw [hlater, hgoal] at h
      rcases FileTree.find?_of_insert h with hmade | ⟨-, hl⟩
      · exact Or.inl (file_of_makeDirectories hmade)
      · exact Or.inr ⟨pieces, hfilled, hl⟩
    · rw [hlater, hgoal] at h
      rcases FileTree.find?_of_replace h with ⟨-, hmade⟩ | hl
      · exact Or.inl (file_of_makeDirectories hmade)
      · exact Or.inr ⟨pieces, hfilled, hl⟩

theorem file_write (scratch : Scratch) (name : String) (content : Content) (tree : FileTree)
    (pieces : List String) (bytes : List UInt8) :
    (scratch.write name content tree).2.find? (scratch.spot tree pieces) = some (.file bytes) ↔
      if scratch.filled? name content tree = some pieces then content.bytes = bytes
      else tree.find? (scratch.spot tree pieces) = some (.file bytes) := by
  cases hfilled : scratch.filled? name content tree with
  | none =>
      simp only [reduceCtorEq, if_false]
      refine ⟨fun h => ?_, (write_of_filled?_none hfilled).2.found _ _⟩
      rcases file_of_write h with hold | ⟨other, hother, -⟩
      · exact hold
      · cases hfilled.symm.trans hother
  | some filled =>
      obtain ⟨-, hkeeps, hlookup⟩ := write_of_filled? hfilled
      by_cases heq : filled = pieces
      · subst heq
        rw [if_pos rfl, FileTree.find?_of_lookup hlookup]
        simp
      · rw [if_neg fun hsome => heq (Option.some.inj hsome)]
        refine ⟨fun h => ?_, hkeeps.other _ _ fun hspot => heq (spot_inj.mp hspot).symm⟩
        rcases file_of_write h with hold | ⟨other, hother, hspot⟩
        · exact hold
        · rw [hfilled] at hother
          exact absurd ((Option.some.inj hother).trans (spot_inj.mp hspot).symm) heq

end TableIntake.Scratch
