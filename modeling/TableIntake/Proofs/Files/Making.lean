import TableIntake.Proofs.Files.Ancestors

namespace TableIntake.Files

/-! Making directories with all that is missing above them. -/

theorem FileTree.checkPath_of_text {path longer : Path} (h : checkPath longer = .ok ())
    (htext : ∃ rest, longer.text = path.text ++ rest) (hne : path.isEmpty = false) :
    checkPath path = .ok () := by
  obtain ⟨rest, hrest⟩ := htext
  unfold checkPath at h ⊢
  rw [hrest, String.toList_append, String.utf8ByteSize_append] at h
  split at h
  case isTrue => cases h
  case isFalse hnul =>
      split at h
      case isTrue => cases h
      case isFalse hlong =>
          rw [if_neg fun hmem => hnul (List.mem_append_left _ hmem), if_neg (by omega), hne]
          rfl

theorem Path.text_append (absolute : Bool) (before after : List String) :
    ∃ rest, text ⟨absolute, before ++ after⟩ = text ⟨absolute, before⟩ ++ rest := by
  unfold text
  cases before with
  | nil => exact ⟨"/".intercalate after, by simp⟩
  | cons first before =>
      cases after with
      | nil => exact ⟨"", by simp⟩
      | cons next after =>
          refine ⟨"/" ++ "/".intercalate (next :: after), ?_⟩
          rw [String.intercalate_append_of_ne_nil (List.cons_ne_nil _ _) (List.cons_ne_nil _ _)]
          simp only [String.append_assoc]

namespace FileTree

/-- Everything in the tree is in a directory of it. -/
def Rooted (tree : FileTree) : Prop :=
  ∀ location node, (location, node) ∈ tree.nodes →
    location ≠ [] ∧ tree.find? location.tail = some .directory

theorem mem_of_find? {tree : FileTree} {location : Location} {node : Node} (hne : location ≠ [])
    (h : tree.find? location = some node) : (location, node) ∈ tree.nodes := by
  have hlookup : tree.nodes.lookup location = some node := by simpa [find?, hne] using h
  obtain ⟨before, after, heq, -⟩ := List.lookup_eq_some_iff.mp hlookup
  rw [heq]
  simp

namespace Rooted

variable {tree : FileTree}

theorem of_mem (h : tree.Rooted) {location above : Location} {node : Node}
    (hmem : (location, node) ∈ tree.nodes) (habove : above <:+ location)
    (hne : above ≠ location) : tree.find? above = some .directory := by
  induction location generalizing node with
  | nil => exact absurd (List.suffix_nil.mp habove) hne
  | cons name location ih =>
      have hdir : tree.find? location = some .directory := (h _ _ hmem).2
      rcases List.suffix_cons_iff.mp habove with heq | hsuffix
      · exact absurd heq hne
      · by_cases heq : above = location
        · rw [heq, hdir]
        · have hlocation : location ≠ [] := by
            rintro rfl
            exact heq (List.suffix_nil.mp hsuffix)
          exact ih (mem_of_find? hlocation hdir) hsuffix heq

theorem of_find? (h : tree.Rooted) {location above : Location} {node : Node}
    (hfind : tree.find? location = some node) (habove : above <:+ location)
    (hne : above ≠ location) : tree.find? above = some .directory := by
  refine h.of_mem (mem_of_find? ?_ hfind) habove hne
  rintro rfl
  exact hne (List.suffix_nil.mp habove)

theorem find?_of_suffix (h : tree.Rooted) {location place : Location}
    (hnone : tree.find? place = none) (hsuffix : place <:+ location) :
    tree.find? location = none := by
  cases hfind : tree.find? location with
  | none => rfl
  | some node =>
      by_cases heq : place = location
      · subst heq
        cases hnone.symm.trans hfind
      · cases hnone.symm.trans (h.of_find? hfind hsuffix heq)

theorem not_suffix (h : tree.Rooted) {location place : Location} {node : Node}
    (hnone : tree.find? place = none) (hmem : (location, node) ∈ tree.nodes) :
    ¬ place <:+ location := by
  intro hsuffix
  by_cases heq : place = location
  · subst heq
    have hne := (h _ _ hmem).1
    have hlookup : tree.nodes.lookup place = none := by simpa [find?, hne] using hnone
    have hother := List.lookup_eq_none_iff.mp hlookup _ hmem
    simp at hother
  · cases hnone.symm.trans (h.of_mem hmem hsuffix heq)

theorem insert (h : tree.Rooted) {location : Location} (hnone : tree.find? location = none)
    (hdir : tree.find? location.tail = some .directory) (node : Node) :
    (tree.insert location node).Rooted := by
  have hkeeps := keeps_insert node hnone
  intro other found hmem
  rcases List.mem_cons.mp hmem with heq | hmem
  · cases heq
    exact ⟨ne_nil_of_find?_eq_none hnone, hkeeps.found _ _ hdir⟩
  · obtain ⟨hne, hother⟩ := h other found hmem
    exact ⟨hne, hkeeps.found _ _ hother⟩

theorem makeDirectory (h : tree.Rooted) {later : FileTree} {path : Path}
    (hmake : tree.makeDirectory path = .ok later) : later.Rooted := by
  obtain ⟨before, name, hnamed, -, hopen, hnone, rfl⟩ := makeDirectory_eq_ok hmake
  refine h.insert hnone ?_ _
  rw [hnamed.goal tree]
  exact (open_append.mp hopen).2.1

theorem makeDirectories (h : tree.Rooted) (path : Path) :
    (tree.makeDirectories path).2.Rooted :=
  makeChain_induction (motive := Rooted) _ (fun _ _ _ _ h hmake => h.makeDirectory hmake) h

end Rooted

/-! What is missing. -/

/-- The directories that a path needs and that are not there, the path first. -/
def missing (tree : FileTree) (path : Path) : List Path :=
  path.ancestors.takeWhile fun dir => !dir.isEmpty && !tree.pathExists dir

theorem missing_of_pathExists {tree : FileTree} {path : Path}
    (h : path.isEmpty = true ∨ tree.pathExists path = true) : tree.missing path = [] := by
  unfold missing
  rw [Path.ancestors_eq]
  rcases h with h | h <;> simp [h]

def missingAbove (tree : FileTree) (path : Path) : List Path :=
  (path.parent?.map tree.missing).getD []

theorem missingAbove_of_parent? {tree : FileTree} {path parent : Path}
    (h : path.parent? = some parent) : tree.missingAbove path = tree.missing parent := by
  rw [missingAbove, h]
  rfl

theorem missingAbove_of_root {tree : FileTree} {path : Path} (h : path.parent? = none) :
    tree.missingAbove path = [] := by
  rw [missingAbove, h]
  rfl

theorem missing_eq_cons {tree : FileTree} {path : Path} (hne : path.isEmpty = false)
    (h : tree.pathExists path = false) :
    tree.missing path = path :: tree.missingAbove path := by
  unfold missingAbove missing
  rw [Path.ancestors_eq, List.takeWhile_cons, hne, h]
  cases path.parent? <;> rfl

/-- What is there is not made for lack of something above it. -/
theorem makeDirectory_ne_notFound {tree : FileTree} {path : Path}
    (h : tree.pathExists path = true) : tree.makeDirectory path ≠ .error .notFound := by
  obtain ⟨node, hlookup⟩ := pathExists_eq_true.mp h
  obtain ⟨hcheck, hopen, -, hfind⟩ := lookup_eq_ok.mp hlookup
  obtain ⟨slashes, hslashes, hpieces⟩ := withoutSlashes_append path
  unfold makeDirectory
  rcases List.eq_nil_or_concat (withoutSlashes path) with hnil | ⟨before, last, heq⟩
  · have hsplit : tree.split path (withoutSlashes path) = .ok (tree.start path, "") := by
      simp only [split, hnil, hcheck, bind, Except.bind, List.reverse_nil]
      rfl
    rw [hsplit]
    intro h
    cases h
  · rw [List.concat_eq_append] at heq
    rw [hpieces, heq, List.append_assoc] at hopen
    obtain ⟨hbefore, hlast⟩ := open_append.mp hopen
    have hsplit : tree.split path (before ++ [last]) =
        .ok (place (tree.start path) before, last) :=
      split_eq_ok.mpr ⟨hcheck, hbefore, hlast.1, rfl, rfl⟩
    have hstep : step (place (tree.start path) before) last = .ok (tree.goal path) := by
      refine step_eq_ok.mpr ⟨hlast.2.1, ?_⟩
      rw [goal, hpieces, heq, List.append_assoc, place_append, place_append,
        place_of_idle hslashes]
      rfl
    rw [heq, hsplit]
    simp only [bind, Except.bind]
    split
    · intro h
      cases h
    · rw [hstep]
      simp only [hfind]
      intro h
      cases h

theorem pathExists_of_lack {tree : FileTree} {path : Path}
    (h : tree.makeDirectory path = .error .notFound) : tree.pathExists path = false := by
  apply eq_false_of_ne_true
  intro hexists
  exact makeDirectory_ne_notFound hexists h

/-- What a path passes was there before, or lies above the place it leads to. -/
def PassesAbove (tree : FileTree) (path : Path) : Prop :=
  Passes (fun l => tree.find? l = some .directory ∨ l <:+ tree.goal path) (tree.start path)
    path.pieces

/-- The path was made: where there was nothing is now a directory, under the name it ends in. -/
structure Made (tree later : FileTree) (path : Path) : Prop where
  missing : tree.find? (tree.goal path) = none
  found : later.lookup path = .ok (tree.goal path, .directory)
  named : ∃ before name, Named path before name
  passes : tree.PassesAbove path

def withDirectories (tree : FileTree) (dirs : List Path) : FileTree :=
  ⟨dirs.map (fun dir => (tree.goal dir, Node.directory)) ++ tree.nodes, tree.here⟩

/-- Exactly these directories were made, each above the ones before it. -/
structure Built (tree later : FileTree) (dirs : List Path) : Prop where
  eq : later = tree.withDirectories dirs
  made : ∀ dir ∈ dirs, Made tree later dir
  linked : dirs.Pairwise fun lower upper => tree.goal upper <:+ (tree.goal lower).tail

theorem Built.nil (tree : FileTree) : Built tree tree [] :=
  ⟨rfl, fun _ h => absurd h List.not_mem_nil, List.Pairwise.nil⟩

theorem Built.congr {tree later : FileTree} {dirs others : List Path} (h : Built tree later dirs)
    (hgoals : others.map tree.goal = dirs.map tree.goal)
    (hmade : ∀ dir ∈ others, Made tree later dir) : Built tree later others where
  eq := by
    have hnodes : ∀ paths : List Path, paths.map (fun dir => (tree.goal dir, Node.directory)) =
        (paths.map tree.goal).map fun location => (location, Node.directory) := by
      intro paths
      rw [List.map_map]
      rfl
    rw [h.eq, withDirectories, withDirectories, hnodes, hnodes, hgoals]
  made := hmade
  linked := by
    have hpairs : ∀ paths : List Path,
        (paths.map tree.goal).Pairwise (fun lower upper => upper <:+ lower.tail) ↔
          paths.Pairwise fun lower upper => tree.goal upper <:+ (tree.goal lower).tail :=
      fun _ => List.pairwise_map
    rw [← hpairs, hgoals, hpairs]
    exact h.linked

theorem find?_withDirectories (tree : FileTree) {dirs : List Path} {location : Location}
    (h : ∀ dir ∈ dirs, tree.goal dir ≠ location) :
    (tree.withDirectories dirs).find? location = tree.find? location := by
  induction dirs with
  | nil => rfl
  | cons dir dirs ih =>
      have hdir := h dir List.mem_cons_self
      have hrest := ih fun other hother => h other (List.mem_cons_of_mem _ hother)
      exact (find?_insert_of_ne _ .directory hdir.symm).trans hrest

theorem checkPath_parent {path parent : Path} (hparent : path.parent? = some parent)
    (hne : parent.isEmpty = false) (hcheck : checkPath path = .ok ()) :
    checkPath parent = .ok () := by
  obtain ⟨before, last, hcore, rfl⟩ := Path.pieces_of_parent? hparent
  obtain ⟨idles, -, hpieces⟩ := path.core_append
  obtain ⟨others, -, hbefore⟩ := Path.core_append ⟨path.absolute, before⟩
  have hsplit : path.pieces =
      Path.core ⟨path.absolute, before⟩ ++ (others ++ ([last] ++ idles)) := by
    simp only at hbefore
    rw [hpieces, hcore, ← List.append_assoc _ others, ← hbefore, List.append_assoc]
  have htext := Path.text_append path.absolute (Path.core ⟨path.absolute, before⟩)
    (others ++ ([last] ++ idles))
  rw [← hsplit] at htext
  exact checkPath_of_text hcheck htext hne

/-- The parent of a path that can be walked is there, unless it names nothing. -/
theorem lookup_parent {tree : FileTree} {path parent : Path} (hparent : path.parent? = some parent)
    (hne : parent.isEmpty = false) (hcheck : checkPath path = .ok ())
    (hopen : tree.Open (tree.start path) path.core) :
    tree.lookup parent = .ok (tree.goal parent, .directory) := by
  have hcheckparent := checkPath_parent hparent hne hcheck
  obtain ⟨before, last, hcore, rfl⟩ := Path.pieces_of_parent? hparent
  obtain ⟨others, -, hbefore⟩ := Path.core_append ⟨path.absolute, before⟩
  rw [hcore] at hopen
  obtain ⟨hopenbefore, hlast⟩ := open_append.mp hopen
  have hgoal : tree.goal ⟨path.absolute, Path.core ⟨path.absolute, before⟩⟩ =
      place (tree.start path) before := place_core ⟨path.absolute, before⟩ _
  have hall : tree.Open (tree.start path) (Path.core ⟨path.absolute, before⟩ ++ others) :=
    hbefore ▸ hopenbefore
  exact lookup_eq_ok.mpr ⟨hcheckparent, (open_append.mp hall).1, rfl, hgoal ▸ hlast.1⟩

theorem missing_parent_of_makeDirectory {tree later : FileTree} {path parent : Path}
    (h : tree.makeDirectory path = .ok later) (hparent : path.parent? = some parent) :
    tree.missing parent = [] := by
  obtain ⟨before, name, hnamed, hcheck, hopen, -, -⟩ := makeDirectory_eq_ok h
  cases hempty : parent.isEmpty with
  | true => exact missing_of_pathExists (Or.inl hempty)
  | false =>
      rw [← core_of_named hnamed] at hopen
      have hlookup := lookup_parent hparent hempty hcheck hopen
      exact missing_of_pathExists (Or.inr (pathExists_eq_true.mpr ⟨_, hlookup⟩))

/-- What is missing above a path of a name was made above the place it leads to. -/
theorem Built.above {tree middle : FileTree} {path : Path} {before : List String} {name : String}
    (h : Built tree middle (tree.missingAbove path)) (hnamed : Named path before name) :
    ∀ dir ∈ tree.missingAbove path, tree.goal dir <:+ (tree.goal path).tail := by
  intro dir hdir
  cases hparent : path.parent? with
  | none => simp [missingAbove_of_root hparent] at hdir
  | some parent =>
      have hgoal : (tree.goal path).tail = tree.goal parent := by
        rw [hnamed.goal tree, goal_parent hnamed hparent]
        rfl
      rw [hgoal]
      have hlinked := h.linked
      rw [missingAbove_of_parent? hparent] at hdir hlinked
      cases hexists : tree.pathExists parent with
      | true => simp [missing_of_pathExists (Or.inr hexists)] at hdir
      | false =>
          cases hempty : parent.isEmpty with
          | true => simp [missing_of_pathExists (Or.inl hempty)] at hdir
          | false =>
              rw [missing_eq_cons hempty hexists] at hdir hlinked
              rcases List.mem_cons.mp hdir with rfl | hdir
              · exact List.suffix_rfl
              · exact ((List.pairwise_cons.mp hlinked).1 dir hdir).trans (List.tail_suffix _)

theorem Built.passes_parent {tree middle : FileTree} {path parent : Path}
    (h : Built tree middle (tree.missingAbove path)) (hparent : path.parent? = some parent) :
    tree.PassesAbove parent := by
  cases hempty : parent.isEmpty with
  | true =>
      rw [PassesAbove, (Path.isEmpty_eq_true.mp hempty).2]
      trivial
  | false =>
      cases hexists : tree.pathExists parent with
      | true =>
          obtain ⟨node, hlookup⟩ := pathExists_eq_true.mp hexists
          exact (lookup_eq_ok.mp hlookup).2.1.passes.mono fun _ => Or.inl
      | false =>
          rw [missingAbove_of_parent? hparent, missing_eq_cons hempty hexists] at h
          exact (h.made parent List.mem_cons_self).passes

theorem Built.passes {tree middle : FileTree} {path : Path} {before : List String} {name : String}
    (h : Built tree middle (tree.missingAbove path)) (hnamed : Named path before name) :
    tree.PassesAbove path := by
  obtain ⟨slashes, hslashes, hpieces⟩ := hnamed.pieces
  obtain ⟨others, hothers, hbefore⟩ := Path.core_append ⟨path.absolute, before⟩
  have hparent := Path.parent?_of_core (core_of_named hnamed)
  have hgoal : tree.goal path = name :: place (tree.start path) before := hnamed.goal tree
  have hupper : place (tree.start path) before <:+ tree.goal path :=
    hgoal ▸ List.suffix_cons name _
  have hsame : tree.goal _ = place (tree.start path) before := goal_parent hnamed hparent
  have hpassed := h.passes_parent hparent
  unfold PassesAbove at hpassed ⊢
  rw [hsame] at hpassed
  rw [hpieces, passes_append]
  constructor
  · have hall : before = Path.core ⟨path.absolute, before⟩ ++ others := hbefore
    rw [hall, passes_append]
    refine ⟨hpassed.mono fun l => Or.imp_right (·.trans hupper), ?_⟩
    refine passes_of_idle hothers (Or.inr ?_)
    rw [place_core ⟨path.absolute, before⟩]
    exact hupper
  · have hlast : hop (place (tree.start path) before) name = tree.goal path :=
      (hop_of_isName hnamed.2 _).trans hgoal.symm
    exact ⟨Or.inr hupper, passes_of_idle hslashes (Or.inr (hlast ▸ List.suffix_rfl))⟩

theorem Made.keeps {tree later last : FileTree} {path : Path} (h : Made tree later path)
    (hkeeps : Keeps later last) : Made tree last path := by
  refine ⟨h.missing, ?_, h.named, h.passes⟩
  have hgoal := goal_of_lookup h.found
  have hfound := h.found
  rw [← hgoal] at hfound
  rw [← hgoal, ← hkeeps.goal path]
  exact hkeeps.lookup hfound

theorem lookup_of_makeDirectory {tree later : FileTree} {path : Path}
    (h : tree.makeDirectory path = .ok later) :
    later.lookup path = .ok (later.goal path, .directory) := by
  obtain ⟨before, name, hnamed, hcheck, hopen, hnone, rfl⟩ := makeDirectory_eq_ok h
  obtain ⟨slashes, hslashes, hpieces⟩ := hnamed.pieces
  have hfound := tree.find?_insert_self .directory (ne_nil_of_find?_eq_none hnone)
  have hsplit : path.pieces = (before ++ [name]) ++ slashes := by
    rw [hpieces]
    simp
  have hlast : place (tree.start path) (before ++ [name]) = tree.goal path := by
    rw [goal, hsplit]
    exact ((place_append ..).trans (place_of_idle hslashes _)).symm
  refine lookup_eq_ok.mpr ⟨hcheck, ?_, rfl, hfound⟩
  rw [hsplit]
  refine open_append.mpr ⟨hopen.mono fun l => (keeps_insert _ hnone).found l _, ?_⟩
  have hstart : (tree.insert (tree.goal path) .directory).start path = tree.start path := rfl
  rw [hstart, hlast]
  exact open_of_idle hslashes hfound

theorem made_of_makeDirectory {tree middle later : FileTree} {path : Path}
    (h : middle.makeDirectory path = .ok later) (hkeeps : Keeps tree middle)
    (hbuilt : Built tree middle (tree.missingAbove path)) :
    Made tree later path ∧ later = middle.insert (tree.goal path) .directory := by
  obtain ⟨before, name, hnamed, -, -, hnone, hlater⟩ := makeDirectory_eq_ok h
  have hgoal := hkeeps.goal path
  have hfound := lookup_of_makeDirectory h
  rw [hgoal] at hnone hlater
  have hhere : later.here = tree.here := by
    rw [hlater]
    exact hkeeps.here
  rw [goal_of_here hhere] at hfound
  exact ⟨⟨hkeeps.find?_eq_none hnone, hfound, ⟨before, name, hnamed⟩, hbuilt.passes hnamed⟩, hlater⟩

/-- The paths that have to be there for a path, as far as they name anything. -/
def needed (path : Path) : List Path :=
  path.ancestors.takeWhile (!·.isEmpty)

theorem needed_of_isEmpty {path : Path} (h : path.isEmpty = true) : needed path = [] := by
  unfold needed
  rw [Path.ancestors_eq]
  simp [h]

theorem needed_eq_cons {path : Path} (h : path.isEmpty = false) :
    needed path = path :: (path.parent?.map needed).getD [] := by
  unfold needed
  rw [Path.ancestors_eq, List.takeWhile_cons, h]
  cases path.parent? <;> rfl

/-- Above a path nothing is needed, or what its parent needs. -/
theorem makeChain_above {tree later : FileTree} {path : Path} {result : Except Error Unit}
    (h : tree.makeChain ((path.parent?.map needed).getD []) = (result, later)) :
    (result = .ok () ∧ later = tree ∧ tree.missingAbove path = []) ∨
      ∃ parent, path.parent? = some parent ∧ parent.isEmpty = false ∧
        tree.makeChain (needed parent) = (result, later) := by
  cases hparent : path.parent? with
  | none =>
      rw [hparent] at h
      cases h
      exact Or.inl ⟨rfl, rfl, missingAbove_of_root hparent⟩
  | some parent =>
      rw [hparent, Option.map_some, Option.getD_some] at h
      cases hempty : parent.isEmpty with
      | false => exact Or.inr ⟨parent, rfl, hempty, h⟩
      | true =>
          rw [needed_of_isEmpty hempty] at h
          cases h
          refine Or.inl ⟨rfl, rfl, ?_⟩
          rw [missingAbove_of_parent? hparent, missing_of_pathExists (Or.inl hempty)]

theorem goal_of_mem_missing {tree : FileTree} {path dir : Path} (hdown : ".." ∉ path.pieces)
    (hdir : dir ∈ tree.missing path) :
    tree.goal dir <:+ tree.goal path ∧ ".." ∉ dir.pieces :=
  tree.goal_of_mem_ancestors hdown dir ((List.takeWhile_sublist _).subset hdir)

theorem Built.cons {tree middle later : FileTree} {path : Path}
    (h : Built tree middle (tree.missingAbove path)) (hkeeps : Keeps tree middle)
    (hmake : middle.makeDirectory path = .ok later) :
    Built tree later (path :: tree.missingAbove path) := by
  obtain ⟨hmade, hlater⟩ := made_of_makeDirectory hmake hkeeps h
  obtain ⟨before, name, hnamed⟩ := hmade.named
  have hnone : middle.find? (tree.goal path) = none := by
    obtain ⟨-, -, -, -, -, hnone, -⟩ := makeDirectory_eq_ok hmake
    rwa [hkeeps.goal] at hnone
  refine ⟨?_, ?_, ?_⟩
  · rw [hlater, h.eq]
    rfl
  · intro dir hdir
    rcases List.mem_cons.mp hdir with rfl | hdir
    · exact hmade
    · rw [hlater]
      exact (h.made dir hdir).keeps (keeps_insert _ hnone)
  · exact List.pairwise_cons.mpr ⟨h.above hnamed, h.linked⟩

/-- Where something had to be made above a path, there is nothing at the path itself. -/
theorem find?_middle {tree middle : FileTree} {path : Path} {before : List String} {name : String}
    (hrooted : tree.Rooted) (hnamed : Named path before name)
    (h : Built tree middle (tree.missingAbove path)) (hmissing : tree.missingAbove path ≠ []) :
    middle.find? (tree.goal path) = none := by
  obtain ⟨lowest, hmem⟩ := List.exists_mem_of_ne_nil _ hmissing
  have hne : tree.goal path ≠ [] := by
    rw [hnamed.goal tree]
    exact List.cons_ne_nil _ _
  have hapart : ∀ dir ∈ tree.missingAbove path, tree.goal dir ≠ tree.goal path := by
    intro dir hdir heq
    have hlength := (h.above hnamed dir hdir).length_le
    have hpos := List.length_pos_iff.mpr hne
    rw [heq, List.length_tail] at hlength
    omega
  rw [h.eq, find?_withDirectories tree hapart]
  -- Nothing was beneath the directories that were missing.
  exact hrooted.find?_of_suffix (h.made lowest hmem).missing
    ((h.above hnamed lowest hmem).trans (List.tail_suffix _))

/-- A directory that cannot be made for lack of the one above it is not there by the time that
one is. -/
theorem isDirectory_middle {tree middle : FileTree} {path : Path} {before : List String}
    {name : String} (hrooted : tree.Rooted) (hnamed : Named path before name)
    (h : Built tree middle (tree.missingAbove path))
    (hlack : tree.makeDirectory path = .error .notFound) : middle.isDirectory path = false := by
  cases hdir : middle.isDirectory path with
  | false => rfl
  | true =>
      have hlookup := isDirectory_eq_true.mp hdir
      cases hmissing : tree.missingAbove path with
      | nil =>
          have hsame : middle = tree := by
            rw [h.eq, hmissing]
            rfl
          rw [hsame] at hlookup
          have hexists := pathExists_eq_true.mpr ⟨_, hlookup⟩
          exact absurd hlack (makeDirectory_ne_notFound hexists)
      | cons lowest others =>
          have hhere : middle.here = tree.here := by
            rw [h.eq]
            rfl
          have hfind := find?_of_lookup hlookup
          rw [goal_of_here hhere, find?_middle hrooted hnamed h (by simp [hmissing])] at hfind
          cases hfind

/-- What was missing of a path, and nothing else, was made, and so the path is there. -/
structure Supplied (tree later : FileTree) (path : Path) : Prop where
  built : Built tree later (tree.missing path)
  found : later.lookup path = .ok (later.goal path, .directory)

theorem supplied_of_isDirectory {tree : FileTree} {path : Path}
    (h : tree.isDirectory path = true) : Supplied tree tree path := by
  have hlookup := isDirectory_eq_true.mp h
  have hexists := pathExists_eq_true.mpr ⟨_, hlookup⟩
  refine ⟨?_, hlookup⟩
  rw [missing_of_pathExists (Or.inr hexists)]
  exact Built.nil tree

theorem supplied_of_makeDirectory {tree middle later : FileTree} {path : Path}
    (hne : path.isEmpty = false) (h : Built tree middle (tree.missingAbove path))
    (hkeeps : Keeps tree middle) (hmake : middle.makeDirectory path = .ok later) :
    Supplied tree later path := by
  have hall := h.cons hkeeps hmake
  have hmade := hall.made path List.mem_cons_self
  refine ⟨?_, ?_⟩
  · rw [missing_eq_cons hne (pathExists_eq_false hmade.missing)]
    exact hall
  · rw [goal_of_lookup hmade.found]
    exact hmade.found

theorem built_above_of_makeDirectory {tree later : FileTree} {path : Path}
    (h : tree.makeDirectory path = .ok later) : Built tree tree (tree.missingAbove path) := by
  cases hparent : path.parent? with
  | none =>
      rw [missingAbove_of_root hparent]
      exact Built.nil tree
  | some parent =>
      rw [missingAbove_of_parent? hparent, missing_parent_of_makeDirectory h hparent]
      exact Built.nil tree

/-- What is missing above a path is made before it, if making the parent makes what is missing
of that. -/
theorem built_above_of_makeChain {tree middle : FileTree} {path : Path}
    (hparents : tree.makeChain ((path.parent?.map needed).getD []) = (.ok (), middle))
    (ih : ∀ parent, path.parent? = some parent → parent.isEmpty = false →
      tree.makeChain (needed parent) = (.ok (), middle) →
        Built tree middle (tree.missing parent)) :
    Built tree middle (tree.missingAbove path) := by
  cases makeChain_above hparents with
  | inl hnothing =>
      obtain ⟨-, rfl, hmissing⟩ := hnothing
      rw [hmissing]
      exact Built.nil middle
  | inr habove =>
      obtain ⟨parent, hparent, hempty, hmake⟩ := habove
      rw [missingAbove_of_parent? hparent]
      exact ih parent hparent hempty hmake

/-- Everything that is missing of the path can be made under the name it ends in. -/
def Nameable (tree : FileTree) (path : Path) : Prop :=
  ∀ dir ∈ tree.missing path, ∃ before name, Named dir before name

namespace Nameable

variable {tree : FileTree} {path : Path}

theorem named (h : tree.Nameable path) (hne : path.isEmpty = false)
    (habsent : tree.pathExists path = false) : ∃ before name, Named path before name := by
  refine h path ?_
  rw [missing_eq_cons hne habsent]
  exact List.mem_cons_self

theorem parent (h : tree.Nameable path) (hne : path.isEmpty = false)
    (habsent : tree.pathExists path = false) {parent : Path}
    (hparent : path.parent? = some parent) : tree.Nameable parent := by
  intro dir hdir
  refine h dir ?_
  rw [missing_eq_cons hne habsent, missingAbove_of_parent? hparent]
  exact List.mem_cons_of_mem path hdir

end Nameable

/-- Making a path makes exactly what is missing of it. -/
theorem makeDirectories_eq_ok {tree : FileTree} (hrooted : tree.Rooted) {path : Path}
    (hnames : tree.Nameable path) (hne : path.isEmpty = false) {later : FileTree}
    (h : tree.makeDirectories path = (.ok (), later)) : Supplied tree later path := by
  have hchain : tree.makeChain (needed path) = (.ok (), later) := h
  clear h
  induction path using Path.parent_induction generalizing later with
  | step path ih =>
      rw [needed_eq_cons hne] at hchain
      cases makeChain_eq_ok hchain with
      | inl hreaches =>
          obtain hmake | ⟨rfl, hdir⟩ := hreaches
          · exact supplied_of_makeDirectory hne (built_above_of_makeDirectory hmake)
              (Keeps.refl tree) hmake
          · exact supplied_of_isDirectory hdir
      | inr hlacking =>
          obtain ⟨middle, hlack, hparents, hreaches⟩ := hlacking
          have habsent := pathExists_of_lack hlack
          obtain ⟨before, name, hnamed⟩ := hnames.named hne habsent
          have hbuilt : Built tree middle (tree.missingAbove path) :=
            built_above_of_makeChain hparents fun parent hparent hnonempty hmade =>
              (ih parent hparent (hnames.parent hne habsent hparent) hnonempty hmade).built
          have hkeeps := keeps_makeChain tree ((path.parent?.map needed).getD [])
          rw [hparents] at hkeeps
          obtain hmake | ⟨-, hdir⟩ := hreaches
          · exact supplied_of_makeDirectory hne hbuilt hkeeps hmake
          · cases (isDirectory_middle hrooted hnamed hbuilt hlack).symm.trans hdir

end FileTree

end TableIntake.Files
