import TableIntake.Proofs.Files.Naming
import TableIntake.Proofs.Scratch.Writes

namespace TableIntake.Files.FileTree

/-! Removing directories again. -/

theorem not_suffix_of_suffix_tail {upper lower : Location} (h : upper <:+ lower.tail)
    (hne : lower ≠ []) : ¬ lower <:+ upper := by
  intro hsuffix
  have hfirst := h.length_le
  have hsecond := hsuffix.length_le
  have hpos := List.length_pos_iff.mpr hne
  rw [List.length_tail] at hfirst
  omega

theorem not_isSuffixOf {location other : Location} (h : ¬ location <:+ other) :
    (!location.isSuffixOf other) = true := by
  rw [← List.isSuffixOf_iff_suffix] at h
  rw [eq_false_of_ne_true h]
  rfl

/-- What was made above a place stays when that place is removed. -/
theorem Made.prune {tree later : FileTree} {path : Path} {lower : Location}
    (h : Made tree later path) (hrooted : tree.Rooted) (hhere : later.here = tree.here)
    (hlower : tree.find? lower = none) (habove : tree.goal path <:+ lower.tail) :
    Made tree (later.prune lower) path := by
  have hne := ne_nil_of_find?_eq_none hlower
  have hout : ∀ l, l <:+ tree.goal path → ¬ lower <:+ l := fun l hl hsuffix =>
    not_suffix_of_suffix_tail habove hne (hsuffix.trans hl)
  have hkept : ∀ l, tree.find? l = some .directory ∨ l <:+ tree.goal path →
      later.find? l = some .directory → (later.prune lower).find? l = some .directory := by
    intro l hl hdir
    rw [later.find?_prune_of_not_suffix, hdir]
    rcases hl with hold | hl
    · intro hsuffix
      cases (hrooted.find?_of_suffix hlower hsuffix).symm.trans hold
    · exact hout l hl
  have hgoal := goal_of_here hhere path
  have hfound := h.found
  rw [← hgoal] at hfound
  have hpasses := h.passes
  rw [PassesAbove, ← start_of_here hhere] at hpasses
  refine ⟨h.missing, ?_, h.named, h.passes⟩
  have hnode := hkept (later.goal path) (Or.inr (hgoal ▸ List.suffix_rfl))
    (find?_of_lookup hfound)
  have hpruned : (later.prune lower).here = later.here := rfl
  have hlookup := lookup_of_passes hfound hpasses hpruned hkept hnode
  rwa [goal_of_here (hpruned.trans hhere)] at hlookup

theorem prune_withDirectories {tree : FileTree} (hrooted : tree.Rooted) {dir : Path}
    {dirs : List Path} (hnone : tree.find? (tree.goal dir) = none)
    (hlinked : ∀ upper ∈ dirs, tree.goal upper <:+ (tree.goal dir).tail) :
    (tree.withDirectories (dir :: dirs)).prune (tree.goal dir) = tree.withDirectories dirs := by
  have hne := ne_nil_of_find?_eq_none hnone
  have hdirs : (dirs.map fun upper => (tree.goal upper, Node.directory)).filter
      (fun entry => !(tree.goal dir).isSuffixOf entry.1) =
        dirs.map fun upper => (tree.goal upper, Node.directory) := by
    refine List.filter_eq_self.mpr fun entry hentry => ?_
    obtain ⟨upper, hupper, rfl⟩ := List.mem_map.mp hentry
    exact not_isSuffixOf (not_suffix_of_suffix_tail (hlinked upper hupper) hne)
  have hnodes : tree.nodes.filter (fun entry => !(tree.goal dir).isSuffixOf entry.1) =
      tree.nodes := by
    refine List.filter_eq_self.mpr fun entry hentry => ?_
    exact not_isSuffixOf (hrooted.not_suffix hnone hentry)
  simp only [prune, withDirectories, List.map_cons, List.cons_append, List.filter_cons,
    List.filter_append, hdirs, hnodes]
  simp

/-- A directory in which there is nothing can be removed under the name its path ends in. -/
theorem removeDirectory_of_lookup {tree : FileTree} {path : Path} {before : List String}
    {name : String} (h : tree.lookup path = .ok (tree.goal path, .directory))
    (hnamed : Named path before name)
    (hempty : ∀ location node, (location, node) ∈ tree.nodes → location ≠ [] →
      location.tail ≠ tree.goal path) :
    tree.removeDirectory path = .ok (tree.prune (tree.goal path)) := by
  obtain ⟨hcheck, hopen, -, hfind⟩ := lookup_eq_ok.mp h
  obtain ⟨slashes, hslashes, hpieces⟩ := hnamed.pieces
  obtain ⟨hidle, hparent⟩ := not_idle_of_isName hnamed.2
  rw [hpieces] at hopen
  obtain ⟨hbefore, hlast⟩ := open_append.mp hopen
  have hsplit : tree.split path (withoutSlashes path) =
      .ok (place (tree.start path) before, name) := by
    rw [hnamed.1]
    exact split_eq_ok.mpr ⟨hcheck, hbefore, hlast.1, rfl, rfl⟩
  have hstep : step (place (tree.start path) before) name = .ok (tree.goal path) := by
    refine step_eq_ok.mpr ⟨hlast.2.1, ?_⟩
    rw [hop_of_isName hnamed.2, hnamed.goal tree]
  simp only [Path.isIdle, Bool.or_eq_false_iff, decide_eq_false_iff_not] at hidle
  unfold removeDirectory
  rw [hsplit]
  simp only [bind, Except.bind, hidle, hparent, if_false, hstep, hfind]
  refine if_neg fun hany => ?_
  obtain ⟨⟨location, node⟩, hentry, hchild⟩ := List.any_eq_true.mp hany
  simp only [Bool.and_eq_true, decide_eq_true_eq, Bool.not_eq_true',
    List.isEmpty_eq_false_iff] at hchild
  exact hempty location node hentry hchild.2 hchild.1

/-! The directory in which a path is made. -/

theorem text_child (path : Path) (name : String) :
    ∃ rest, (path.child name).text = path.text ++ rest := by
  obtain ⟨absolute, pieces⟩ := path
  unfold Path.child
  split
  case h_1 rest hrest =>
      have hpieces : pieces = rest.reverse ++ [""] := by
        rw [← List.reverse_cons, ← hrest, List.reverse_reverse]
      subst hpieces
      refine ⟨name, ?_⟩
      unfold Path.text
      cases hbefore : rest.reverse with
      | nil => simp [hbefore]
      | cons first before =>
          rw [List.reverse_cons, hbefore,
            String.intercalate_append_of_ne_nil (List.cons_ne_nil _ _) (List.cons_ne_nil _ _),
            String.intercalate_append_of_ne_nil (List.cons_ne_nil _ _) (List.cons_ne_nil _ _)]
          simp only [String.intercalate_singleton, String.append_empty, String.append_assoc]
  case h_2 =>
      rw [List.reverse_cons, List.reverse_reverse]
      exact Path.text_append absolute pieces [name]

theorem lookup_of_child {tree : FileTree} {path : Path} {name : String} {node : Node}
    (h : tree.lookup (path.child name) = .ok (tree.goal (path.child name), node))
    (hne : path.isEmpty = false) : tree.lookup path = .ok (tree.goal path, .directory) := by
  obtain ⟨hcheck, hopen, -, -⟩ := lookup_eq_ok.mp h
  obtain ⟨before, slashes, hslashes, hpieces, hchild⟩ := child_append path name
  have hstart : tree.start (path.child name) = tree.start path := by
    rw [hchild]
    rfl
  have hgoal : tree.goal path = place (tree.start path) before := by
    rw [goal, hpieces, place_append, place_of_idle hslashes]
  rw [hstart, hchild] at hopen
  obtain ⟨hbefore, hdir, -⟩ := open_append.mp hopen
  refine lookup_eq_ok.mpr ⟨checkPath_of_text hcheck (text_child path name) hne, ?_, rfl, ?_⟩
  · rw [hpieces]
    exact open_append.mpr ⟨hbefore, open_of_idle hslashes hdir⟩
  · rw [hgoal]
    exact hdir

end TableIntake.Files.FileTree

namespace TableIntake.Scratch

open TableIntake.Files
open TableIntake.Files.FileTree (Built Made Named)

/-! Scratch directories that leave no trace. -/

/-- The tree without the scratch directory and what was made for it. -/
def removed (scratch : Scratch) (tree : FileTree) : FileTree :=
  if tree.pathExists scratch.path then
    match tree.removeAll scratch.path with
    | .error _ => tree
    | .ok tree => retreat tree scratch.made
  else retreat tree scratch.made

theorem fst_run_remove (scratch : Scratch) (tree : FileTree) (journal : Log.Journal) :
    ((scratch.remove tree).run journal).1 = scratch.removed tree := by
  unfold remove removed
  split
  · cases tree.removeAll scratch.path <;> rfl
  · rfl

theorem removed_of_lookup {scratch : Scratch} {tree : FileTree}
    (h : tree.lookup scratch.path = .ok (tree.goal scratch.path, .directory)) :
    scratch.removed tree = retreat (tree.prune (tree.goal scratch.path)) scratch.made := by
  have hremove : tree.removeAll scratch.path = .ok (tree.prune (tree.goal scratch.path)) := by
    unfold FileTree.removeAll
    rw [h]
    rfl
  unfold removed
  rw [if_pos (FileTree.pathExists_eq_true.mpr ⟨.directory, h⟩), hremove]

theorem built_prune {tree later : FileTree} (hrooted : tree.Rooted) {dir : Path}
    {dirs : List Path} (h : Built tree later (dir :: dirs)) :
    Built tree (later.prune (tree.goal dir)) dirs := by
  obtain ⟨habove, hrest⟩ := List.pairwise_cons.mp h.linked
  have hmissing := (h.made dir List.mem_cons_self).missing
  have hhere : later.here = tree.here := by
    rw [h.eq]
    rfl
  refine ⟨?_, fun upper hupper => ?_, hrest⟩
  · rw [h.eq]
    exact FileTree.prune_withDirectories hrooted hmissing habove
  · exact (h.made upper (List.mem_cons_of_mem dir hupper)).prune hrooted hhere hmissing
      (habove upper hupper)

/-- Directories that were made one above the other are removed one after the other, and nothing
else is. -/
theorem retreat_of_built {tree later : FileTree} (hrooted : tree.Rooted) {dirs : List Path}
    (h : Built tree later dirs) : retreat later dirs = tree := by
  induction dirs generalizing later with
  | nil => exact h.eq
  | cons dir dirs ih =>
      obtain ⟨habove, hrest⟩ := List.pairwise_cons.mp h.linked
      have hdir := h.made dir List.mem_cons_self
      obtain ⟨before, name, hnamed⟩ := hdir.named
      have hne := FileTree.ne_nil_of_find?_eq_none hdir.missing
      have hempty : ∀ location node, (location, node) ∈ later.nodes → location ≠ [] →
          location.tail ≠ tree.goal dir := by
        intro location node hmem hlocation heq
        have hbeneath : tree.goal dir <:+ location := heq ▸ List.tail_suffix location
        rw [h.eq] at hmem
        rcases List.mem_append.mp hmem with hmem | hmem
        · obtain ⟨upper, hupper, hentry⟩ := List.mem_map.mp hmem
          cases hentry
          rcases List.mem_cons.mp hupper with rfl | hupper
          · have hlength := congrArg List.length heq
            have hpos := List.length_pos_iff.mpr hne
            rw [List.length_tail] at hlength
            omega
          · exact FileTree.not_suffix_of_suffix_tail (habove upper hupper) hne hbeneath
        · exact hrooted.not_suffix hdir.missing hmem hbeneath
      have hgoal := FileTree.goal_of_lookup hdir.found
      have hfound := hdir.found
      rw [← hgoal] at hfound hempty
      have hremove := FileTree.removeDirectory_of_lookup hfound hnamed hempty
      rw [retreat, hremove, hgoal]
      exact ih (built_prune hrooted h)

/-- The root can be named when it has to be removed: if it is not there, it does not end in a
reference to the current directory. -/
def Removable (tree : FileTree) (root : Path) : Prop :=
  tree.pathExists root = true ∨ (FileTree.withoutSlashes root).getLast? ≠ some "."

theorem removable_of_isName {tree : FileTree} {root : Path}
    (h : ∀ piece ∈ root.pieces, FileTree.isName piece = true) : Removable tree root := by
  right
  intro hlast
  obtain ⟨slashes, -, hpieces⟩ := FileTree.withoutSlashes_append root
  have hmem : "." ∈ root.pieces := by
    rw [hpieces]
    exact List.mem_append_left slashes (List.mem_of_getLast? hlast)
  exact absurd (h "." hmem) (by decide)

theorem isName_namePrefix_append (tag : String) :
    FileTree.isName (namePrefix ++ tag) = true := by
  have hfirst : ∀ other : String, other.toList.head? ≠ some 'i' → namePrefix ++ tag ≠ other := by
    rintro other hother rfl
    refine hother ?_
    rw [String.toList_append]
    rfl
  simp [FileTree.isName, Path.isIdle, hfirst "" (by decide), hfirst "." (by decide),
    hfirst ".." (by decide)]

theorem parent?_location (root : Path) (tag : String) :
    ∃ short, (location root tag).parent? = some short ∧ FileTree.Prolongs root short := by
  obtain ⟨before, slashes, hslashes, hpieces, hchild⟩ :=
    FileTree.child_append root (namePrefix ++ tag)
  have hcore : (location root tag).core = before ++ [namePrefix ++ tag] := by
    refine Path.core_of_name (fun _ h => absurd h List.not_mem_nil)
      (FileTree.not_idle_of_isName (isName_namePrefix_append tag)).1 ?_
    rw [location, hchild]
  obtain ⟨idles, hidles, hbefore⟩ := Path.core_append ⟨root.absolute, before⟩
  refine ⟨⟨root.absolute, Path.core ⟨root.absolute, before⟩⟩, ?_, rfl, idles ++ slashes, ?_, ?_⟩
  · rw [Path.parent?_of_core hcore, location, hchild]
  · intro piece hpiece
    rcases List.mem_append.mp hpiece with hpiece | hpiece
    · exact hidles piece hpiece
    · exact hslashes piece hpiece
  · simp only at hbefore
    rw [hpieces, ← List.append_assoc, ← hbefore]

theorem location_isEmpty (root : Path) (tag : String) : (location root tag).isEmpty = false := by
  obtain ⟨before, slashes, -, -, hchild⟩ := FileTree.child_append root (namePrefix ++ tag)
  simp [location, hchild, Path.isEmpty]

theorem goal_location (tree : FileTree) (root : Path) (tag : String) :
    tree.goal (location root tag) = (namePrefix ++ tag) :: tree.goal root := by
  rw [location, FileTree.goal_child, FileTree.hop_of_isName (isName_namePrefix_append tag)]

theorem checkPath_of_location {root : Path} {tag : String} (hne : root.isEmpty = false)
    (h : FileTree.checkPath (location root tag) = .ok ()) : FileTree.checkPath root = .ok () :=
  FileTree.checkPath_of_text h (FileTree.text_child root (namePrefix ++ tag)) hne

/-- A root is there if it only goes on from a path that is there. -/
theorem pathExists_of_prolongs {tree : FileTree} {root short : Path}
    (hsame : FileTree.Prolongs root short) (hcheck : FileTree.checkPath root = .ok ())
    (hshort : short.isEmpty = true ∨ tree.pathExists short = true)
    (hdir : tree.find? (tree.goal root) = some .directory) : tree.pathExists root = true := by
  have hopen : tree.Open (tree.start short) short.pieces := by
    rcases hshort with hempty | hexists
    · rw [(Path.isEmpty_eq_true.mp hempty).2]
      trivial
    · obtain ⟨node, hlookup⟩ := FileTree.pathExists_eq_true.mp hexists
      exact (FileTree.lookup_eq_ok.mp hlookup).2.1
  have hgoal := hsame.goal tree
  obtain ⟨habsolute, idles, hidles, hpieces⟩ := hsame
  have hstart : tree.start root = tree.start short := by
    unfold FileTree.start
    rw [habsolute]
  refine FileTree.pathExists_eq_true.mpr ⟨.directory, ?_⟩
  refine FileTree.lookup_eq_ok.mpr ⟨hcheck, ?_, rfl, hdir⟩
  rw [hgoal] at hdir
  rw [hstart, hpieces]
  exact FileTree.open_append.mpr ⟨hopen, FileTree.open_of_idle hidles hdir⟩

theorem missing_root_of_built {tree later : FileTree} {root short : Path} {tag : String}
    (hsame : FileTree.Prolongs root short) (hshort : tree.missing short = [])
    (hbuilt : Built tree later [location root tag])
    (hfound : later.lookup (location root tag) =
      .ok (later.goal (location root tag), .directory)) : tree.missing root = [] := by
  cases hne : root.isEmpty with
  | true => exact FileTree.missing_of_pathExists (Or.inl hne)
  | false =>
      have hlookup := FileTree.lookup_of_child hfound hne
      have hhere : later.here = tree.here := by
        rw [hbuilt.eq]
        rfl
      have hdir := FileTree.find?_of_lookup hlookup
      have hapart : ∀ dir ∈ [location root tag], tree.goal dir ≠ tree.goal root := by
        intro dir hdir heq
        rw [List.mem_singleton.mp hdir, goal_location] at heq
        exact List.cons_ne_self _ _ heq
      rw [FileTree.goal_of_here hhere, hbuilt.eq, FileTree.find?_withDirectories tree hapart]
        at hdir
      have hexists : short.isEmpty = true ∨ tree.pathExists short = true := by
        cases hempty : short.isEmpty with
        | true => exact Or.inl rfl
        | false =>
            cases habsent : tree.pathExists short with
            | true => exact Or.inr rfl
            | false => simp [FileTree.missing_eq_cons hempty habsent] at hshort
      have hcheck := checkPath_of_location hne (FileTree.lookup_eq_ok.mp hfound).1
      exact FileTree.missing_of_pathExists
        (Or.inr (pathExists_of_prolongs hsame hcheck hexists hdir))

theorem made_root {tree later : FileTree} {root short : Path} {tag : String}
    (hnames : tree.Nameable root) (hsame : FileTree.Prolongs root short)
    (hmade : Made tree later short) (hhere : later.here = tree.here)
    (hfound : later.lookup (location root tag) =
      .ok (later.goal (location root tag), .directory)) : Made tree later root := by
  obtain ⟨init, name, hnamed⟩ := hmade.named
  have hne : root.isEmpty = false := hsame.isEmpty_of_named hnamed
  have hmissing : tree.find? (tree.goal root) = none := by
    rw [hsame.goal]
    exact hmade.missing
  have hlookup := FileTree.lookup_of_child hfound hne
  rw [FileTree.goal_of_here hhere] at hlookup
  exact ⟨hmissing, hlookup, hnames.named hne (FileTree.pathExists_eq_false hmissing),
    hsame.passes hmade.passes⟩

/-- The directories that are recorded as made for a scratch directory are those that were. -/
theorem built_of_missing {tree later : FileTree} {root : Path} {tag : String}
    (hnames : tree.Nameable root)
    (hsupplied : FileTree.Supplied tree later (location root tag))
    (hfresh : tree.pathExists (location root tag) = false) :
    Built tree later (location root tag :: tree.missing root) := by
  obtain ⟨short, hparent, hsame⟩ := parent?_location root tag
  have hbuilt := hsupplied.built
  rw [FileTree.missing_eq_cons (location_isEmpty root tag) hfresh,
    FileTree.missingAbove_of_parent? hparent] at hbuilt
  cases hmissing : tree.missing short with
  | nil =>
      rw [hmissing] at hbuilt
      rw [missing_root_of_built hsame hmissing hbuilt hsupplied.found]
      exact hbuilt
  | cons first rest =>
      have habsent : short.isEmpty = false ∧ tree.pathExists short = false := by
        refine ⟨eq_false_of_ne_true fun h => ?_, eq_false_of_ne_true fun h => ?_⟩
        · simp [FileTree.missing_of_pathExists (Or.inl h)] at hmissing
        · simp [FileTree.missing_of_pathExists (Or.inr h)] at hmissing
      rw [FileTree.missing_eq_cons habsent.1 habsent.2] at hbuilt
      have hmade := hbuilt.made short (List.mem_cons_of_mem _ List.mem_cons_self)
      obtain ⟨init, name, hnamed⟩ := hmade.named
      have hhere : later.here = tree.here := by
        rw [hbuilt.eq]
        rfl
      have hroot := made_root hnames hsame hmade hhere hsupplied.found
      -- The same place was made, and is recorded under the spelling of the root.
      rw [FileTree.missing_eq_cons (hsame.isEmpty_of_named hnamed)
        (FileTree.pathExists_eq_false hroot.missing), hsame.missingAbove hnamed]
      refine hbuilt.congr ?_ fun dir hdir => ?_
      · rw [List.map_cons, List.map_cons, List.map_cons, List.map_cons, hsame.goal]
      · rcases List.mem_cons.mp hdir with rfl | hdir
        · exact hbuilt.made _ List.mem_cons_self
        · rcases List.mem_cons.mp hdir with rfl | hdir
          · exact hroot
          · exact hbuilt.made dir (List.mem_cons_of_mem _ (List.mem_cons_of_mem _ hdir))

end TableIntake.Scratch
