import TableIntake.Proofs.Files.Making

namespace TableIntake.Files.FileTree

/-! Making directories that stops before the last one. -/

theorem makeChain_of_pathExists {tree : FileTree} {path : Path}
    (h : tree.pathExists path = true) (parents : List Path) :
    (tree.makeChain (path :: parents)).2 = tree := by
  rw [makeChain]
  split
  case h_1 later hmake =>
      obtain ⟨node, hlookup⟩ := pathExists_eq_true.mp h
      obtain ⟨-, -, -, -, -, hnone, -⟩ := makeDirectory_eq_ok hmake
      cases hnone.symm.trans (find?_of_lookup hlookup)
  case h_2 hlack => exact absurd hlack (makeDirectory_ne_notFound h)
  case h_3 => rfl

theorem checkPath_of_lack {tree : FileTree} {path : Path} (hne : path.isEmpty = false)
    (h : tree.makeDirectory path = .error .notFound) : checkPath path = .ok () := by
  cases hcheck : checkPath path with
  | ok u => rfl
  | error e =>
      have hsplit : tree.split path (withoutSlashes path) = .error e := by
        rw [split, hcheck]
        rfl
      have hmake : tree.makeDirectory path = .error e := by
        rw [makeDirectory, hsplit]
        rfl
      rw [h] at hmake
      cases hmake
      simp only [checkPath, hne, Bool.false_eq_true, if_false] at hcheck
      split at hcheck
      · cases hcheck
      · split at hcheck <;> cases hcheck

/-- In a directory that is there a new one of a short name can be made. -/
theorem makeDirectory_of_parent {tree : FileTree} {path parent : Path} {before : List String}
    {name : String} (hnamed : Named path before name) (hparent : path.parent? = some parent)
    (hfound : tree.lookup parent = .ok (tree.goal parent, .directory))
    (hcheck : checkPath path = .ok ()) (hshort : Short name)
    (hnone : tree.find? (tree.goal path) = none) :
    tree.makeDirectory path = .ok (tree.insert (tree.goal path) .directory) := by
  have hgoal : tree.goal parent = place (tree.start path) before := goal_parent hnamed hparent
  rw [Path.parent?_of_core (core_of_named hnamed)] at hparent
  cases hparent
  obtain ⟨-, hopen, -, hdir⟩ := lookup_eq_ok.mp hfound
  obtain ⟨others, hothers, hbefore⟩ := Path.core_append ⟨path.absolute, before⟩
  have hopenbefore : tree.Open (tree.start path) before := by
    have hall : before = Path.core ⟨path.absolute, before⟩ ++ others := hbefore
    rw [hall]
    exact open_append.mpr ⟨hopen, open_of_idle hothers hdir⟩
  rw [hgoal] at hdir
  have hsplit : tree.split path (withoutSlashes path) =
      .ok (place (tree.start path) before, name) := by
    rw [hnamed.1]
    exact split_eq_ok.mpr ⟨hcheck, hopenbefore, hdir, rfl, rfl⟩
  have hstep : step (place (tree.start path) before) name = .ok (tree.goal path) := by
    refine step_eq_ok.mpr ⟨hshort, ?_⟩
    rw [hop_of_isName hnamed.2, hnamed.goal tree]
  rw [makeDirectory, hsplit]
  simp only [bind, Except.bind, hnamed.2, Bool.not_true, Bool.false_eq_true, if_false, hstep,
    hnone]
  rfl

/-- Once something had to be made above a path, only a name that is too long keeps it from being
made. -/
theorem makeDirectory_middle {tree middle : FileTree} {path parent : Path}
    {before : List String} {name : String} (hrooted : tree.Rooted)
    (hnamed : Named path before name) (hparent : path.parent? = some parent)
    (hsupplied : Supplied tree middle parent) (hmissing : tree.missingAbove path ≠ [])
    (hcheck : checkPath path = .ok ()) (hshort : Short name) :
    ∃ later, middle.makeDirectory path = .ok later := by
  have hbuilt := hsupplied.built
  rw [← missingAbove_of_parent? hparent] at hbuilt
  have hhere : middle.here = tree.here := by
    rw [hbuilt.eq]
    rfl
  have hnone := find?_middle hrooted hnamed hbuilt hmissing
  rw [← goal_of_here hhere] at hnone
  exact ⟨_, makeDirectory_of_parent hnamed hparent hsupplied.found hcheck hshort hnone⟩

/-- What making a path leaves when it fails: the uppermost of the directories missing above it are
made, and none of these if no name in the path is too long. -/
def Stopped (tree : FileTree) (path : Path) (left : FileTree) : Prop :=
  ∃ dirs, dirs <:+ tree.missingAbove path ∧ left = tree.withDirectories dirs ∧
    ((∀ piece ∈ path.pieces, Short piece) → dirs = [])

theorem stopped_self (tree : FileTree) (path : Path) : tree.Stopped path tree :=
  ⟨[], List.nil_suffix, rfl, fun _ => rfl⟩

section Lacking

variable {tree left : FileTree} {path parent : Path} {before : List String} {name : String}
  {e : Error}

/-- What is left when the parent fails is left when the path does. -/
theorem stopped_of_parent (hparent : path.parent? = some parent)
    (hne : parent.isEmpty = false) (hmake : tree.makeChain (needed parent) = (.error e, left))
    (h : tree.Stopped parent left) :
    tree.Stopped path left := by
  cases hexists : tree.pathExists parent with
  | true =>
      have hsame := makeChain_of_pathExists hexists ((parent.parent?.map needed).getD [])
      rw [← needed_eq_cons hne, hmake] at hsame
      change left = tree at hsame
      subst left
      exact stopped_self tree path
  | false =>
      obtain ⟨dirs, hsuffix, heq, hshort⟩ := h
      refine ⟨dirs, ?_, heq, ?_⟩
      · rw [missingAbove_of_parent? hparent, missing_eq_cons hne hexists]
        exact hsuffix.trans (List.suffix_cons parent _)
      · intro hall
        apply hshort
        intro piece hpiece
        exact hall piece (pieces_subset_of_parent? hparent hpiece)

/-- All above the path is there, so that its last name has to be too long if anything was made. -/
theorem stopped_of_last (hrooted : tree.Rooted) (hnamed : Named path before name)
    (hparent : path.parent? = some parent) (hsupplied : Supplied tree left parent)
    (hcheck : checkPath path = .ok ()) (hlast : left.makeDirectory path = .error e) :
    tree.Stopped path left := by
  have hbuilt := hsupplied.built
  rw [← missingAbove_of_parent? hparent] at hbuilt
  refine ⟨tree.missingAbove path, List.suffix_rfl, hbuilt.eq, ?_⟩
  intro hshort
  apply Classical.byContradiction
  intro hmissing
  have hname : name ∈ path.pieces := by
    obtain ⟨slashes, -, hpieces⟩ := hnamed.pieces
    rw [hpieces]
    exact List.mem_append_right before List.mem_cons_self
  obtain ⟨later, hmade⟩ := makeDirectory_middle hrooted hnamed hparent hsupplied hmissing hcheck
    (hshort name hname)
  cases hlast.symm.trans hmade

end Lacking

theorem makeDirectories_eq_error {tree : FileTree} (hrooted : tree.Rooted) {path : Path}
    (hnames : tree.Nameable path) (hne : path.isEmpty = false) {e : Error} {left : FileTree}
    (h : tree.makeDirectories path = (.error e, left)) : tree.Stopped path left := by
  replace h : tree.makeChain (needed path) = (.error e, left) := h
  induction path using Path.parent_induction generalizing e left with
  | step path ih =>
      rw [needed_eq_cons hne] at h
      cases makeChain_eq_error h with
      | inl hsame =>
          subst left
          exact stopped_self tree path
      | inr hlacking =>
          obtain ⟨hlack, hparents⟩ := hlacking
          have habsent := pathExists_of_lack hlack
          obtain hparents | ⟨hparents, hlast⟩ := hparents
          · cases makeChain_above hparents with
            | inl hnothing => cases hnothing.1
            | inr habove =>
                obtain ⟨parent, hparent, hempty, hmake⟩ := habove
                have hnamesparent := hnames.parent hne habsent hparent
                exact stopped_of_parent hparent hempty hmake
                  (ih parent hparent hnamesparent hempty hmake)
          · cases makeChain_above hparents with
            | inl hnothing =>
                obtain ⟨-, rfl, -⟩ := hnothing
                exact stopped_self left path
            | inr habove =>
                obtain ⟨parent, hparent, hempty, hmake⟩ := habove
                have hnamesparent := hnames.parent hne habsent hparent
                obtain ⟨before, name, hnamed⟩ := hnames.named hne habsent
                exact stopped_of_last hrooted hnamed hparent
                  (makeDirectories_eq_ok hrooted hnamesparent hempty hmake)
                  (checkPath_of_lack hne hlack) hlast

end TableIntake.Files.FileTree
