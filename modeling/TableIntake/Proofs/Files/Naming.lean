import TableIntake.Proofs.Files.Making

namespace TableIntake.Files.FileTree

/-! Names that paths end in, and when everything that is missing of a path has one. -/

theorem named_of_pieces {path : Path} {before : List String} {name : String}
    (h : path.pieces = before ++ [name]) (hname : isName name = true) :
    Named path before name := by
  have hne : name ≠ "" := by
    rintro rfl
    cases hname
  refine ⟨?_, hname⟩
  simp [withoutSlashes, h, hne]

/-- A path that holds a name ends in one, unless it ends in a reference to a directory. -/
theorem named_of_isName {path : Path} {name : String} (hname : isName name = true)
    (hmem : name ∈ path.pieces) (hdown : ".." ∉ path.pieces)
    (hlast : (withoutSlashes path).getLast? ≠ some ".") :
    ∃ before last, Named path before last := by
  obtain ⟨slashes, hslashes, hpieces⟩ := withoutSlashes_append path
  rcases List.eq_nil_or_concat (withoutSlashes path) with hnil | ⟨before, last, heq⟩
  · rw [hpieces, hnil, List.nil_append] at hmem
    exact absurd (hslashes name hmem) (by simp [(not_idle_of_isName hname).1])
  · rw [List.concat_eq_append] at heq
    refine ⟨before, last, heq, ?_⟩
    have hempty : last ≠ "" := by
      have hhead := List.head?_dropWhile_not (· = "") path.pieces.reverse
      have hdrop : path.pieces.reverse.dropWhile (· = "") = last :: before.reverse := by
        have hreverse := congrArg List.reverse heq
        rw [withoutSlashes, List.reverse_reverse] at hreverse
        rw [hreverse, List.reverse_append]
        rfl
      rw [hdrop] at hhead
      simpa using hhead
    have hdot : last ≠ "." := by
      rintro rfl
      exact hlast (by rw [heq, List.getLast?_concat])
    have hparent : last ≠ ".." := by
      rintro rfl
      exact hdown (by rw [hpieces, heq]; simp)
    simp [isName, Path.isIdle, hempty, hdot, hparent]

/-- A path that leads nowhere is there, if a walk can begin. -/
theorem pathExists_of_idle {tree : FileTree} {path : Path} (hcheck : checkPath path = .ok ())
    (hstart : tree.find? (tree.start path) = some .directory)
    (hidle : ∀ piece ∈ path.pieces, Path.isIdle piece = true) : tree.pathExists path = true := by
  refine pathExists_eq_true.mpr ⟨.directory, lookup_eq_ok.mpr ⟨hcheck, ?_, rfl, ?_⟩⟩
  · exact open_of_idle hidle hstart
  · rw [goal, place_of_idle hidle]
    exact hstart

/-- Without references to parents the parent of a path is there or ends in a name. -/
theorem named_parent_of_down {tree : FileTree} {path parent : Path}
    (hdown : ".." ∉ path.pieces) (hparent : path.parent? = some parent)
    (hcheck : checkPath parent = .ok ())
    (hstart : tree.find? (tree.start parent) = some .directory)
    (habsent : tree.pathExists parent = false) : ∃ before name, Named parent before name := by
  have hdownparent := parents_of_parent? hparent hdown
  have hbusy : ¬ ∀ piece ∈ parent.pieces, Path.isIdle piece = true := by
    intro hidle
    rw [pathExists_of_idle hcheck hstart hidle] at habsent
    cases habsent
  obtain ⟨others, last, -, rfl⟩ := Path.pieces_of_parent? hparent
  rcases List.eq_nil_or_concat (Path.core ⟨path.absolute, others⟩) with hnil | ⟨before, name, heq⟩
  · refine absurd ?_ hbusy
    simp [hnil]
  · rw [List.concat_eq_append] at heq
    cases hidle : Path.isIdle name with
    | true =>
        -- A path of one idle piece leads nowhere.
        obtain hname | ⟨rfl, -⟩ := Path.core_last heq
        · exact absurd hidle (by simp [hname])
        · refine absurd ?_ hbusy
          simp [heq, hidle]
    | false =>
        have hne : name ≠ ".." := by
          rintro rfl
          refine hdownparent ?_
          simp [heq]
        exact ⟨before, name, named_of_pieces heq (by simp [isName, hidle, hne])⟩

/-- Without references to parents all that is missing above a path can be made by name. -/
theorem named_above_of_down {tree : FileTree} {path : Path} (hdown : ".." ∉ path.pieces)
    (hcheck : checkPath path = .ok ())
    (hstart : tree.find? (tree.start path) = some .directory) :
    ∀ dir ∈ tree.missingAbove path, ∃ before name, Named dir before name := by
  induction path using Path.parent_induction with
  | step path ih =>
      intro dir hdir
      cases hparent : path.parent? with
      | none => simp [missingAbove_of_root hparent] at hdir
      | some parent =>
          rw [missingAbove_of_parent? hparent] at hdir
          cases hempty : parent.isEmpty with
          | true => simp [missing_of_pathExists (Or.inl hempty)] at hdir
          | false =>
              cases habsent : tree.pathExists parent with
              | true => simp [missing_of_pathExists (Or.inr habsent)] at hdir
              | false =>
                  have hcheckparent := checkPath_parent hparent hempty hcheck
                  have hstartparent : tree.find? (tree.start parent) = some .directory := by
                    obtain ⟨_, _, -, rfl⟩ := Path.pieces_of_parent? hparent
                    exact hstart
                  rw [missing_eq_cons hempty habsent] at hdir
                  obtain rfl | hdir := List.mem_cons.mp hdir
                  · exact named_parent_of_down hdown hparent hcheckparent hstartparent habsent
                  · exact ih parent hparent (parents_of_parent? hparent hdown) hcheckparent
                      hstartparent dir hdir

theorem find?_start_of_open {tree : FileTree} {path : Path} (hne : path.isEmpty = false)
    (hopen : tree.Open (tree.start path) path.pieces) :
    tree.find? (tree.start path) = some .directory := by
  cases hpieces : path.pieces with
  | nil =>
      have habsolute : path.absolute = true := by simpa [Path.isEmpty, hpieces] using hne
      rw [start, if_pos habsolute, find?_nil]
  | cons piece pieces =>
      rw [hpieces] at hopen
      exact hopen.1

theorem start_of_makeDirectory {tree later : FileTree} {path : Path}
    (h : tree.makeDirectory path = .ok later) :
    checkPath path = .ok () ∧ tree.find? (tree.start path) = some .directory := by
  obtain ⟨before, name, -, hcheck, hopen, -, -⟩ := makeDirectory_eq_ok h
  refine ⟨hcheck, ?_⟩
  cases before with
  | nil => exact hopen.1
  | cons first before => exact hopen.1

theorem Reaches.start {tree later : FileTree} {path : Path} (h : tree.Reaches path later)
    (hne : path.isEmpty = false) :
    checkPath path = .ok () ∧ tree.find? (tree.start path) = some .directory := by
  obtain hmake | ⟨-, hdir⟩ := h
  · exact start_of_makeDirectory hmake
  · obtain ⟨hcheck, hopen, -, -⟩ := lookup_eq_ok.mp (isDirectory_eq_true.mp hdir)
    exact ⟨hcheck, find?_start_of_open hne hopen⟩

theorem start_of_makeDirectories {tree later : FileTree} {path : Path}
    (hne : path.isEmpty = false) (h : tree.makeDirectories path = (.ok (), later)) :
    checkPath path = .ok () ∧ tree.find? (tree.start path) = some .directory := by
  have hchain : tree.makeChain (needed path) = (.ok (), later) := h
  clear h
  induction path using Path.parent_induction generalizing later with
  | step path ih =>
      rw [needed_eq_cons hne] at hchain
      cases makeChain_eq_ok hchain with
      | inl hreaches => exact hreaches.start hne
      | inr hlacking =>
          obtain ⟨middle, -, hparents, hreaches⟩ := hlacking
          obtain ⟨hcheck, hstart⟩ := hreaches.start hne
          refine ⟨hcheck, ?_⟩
          cases makeChain_above hparents with
          | inl hnothing =>
              obtain ⟨-, rfl, -⟩ := hnothing
              exact hstart
          | inr habove =>
              obtain ⟨parent, hparent, hempty, hmake⟩ := habove
              have hbase := (ih parent hparent hempty hmake).2
              obtain ⟨_, _, -, rfl⟩ := Path.pieces_of_parent? hparent
              exact hbase

/-- All that is above a directory is there. -/
theorem found_of_mem_ancestors {tree : FileTree} {path : Path}
    (hne : path.isEmpty = false) (h : tree.lookup path = .ok (tree.goal path, .directory)) :
    ∀ dir ∈ path.ancestors, tree.find? (tree.goal dir) = some .directory ∧
      (dir.isEmpty = false → tree.lookup dir = .ok (tree.goal dir, .directory)) := by
  induction path using Path.parent_induction with
  | step path ih =>
      obtain ⟨hcheck, hopen, -, hfind⟩ := lookup_eq_ok.mp h
      intro dir hdir
      rw [Path.ancestors_eq] at hdir
      obtain rfl | hdir := List.mem_cons.mp hdir
      · exact ⟨hfind, fun _ => h⟩
      · cases hparent : path.parent? with
        | none => simp [hparent] at hdir
        | some parent =>
            rw [hparent] at hdir
            obtain ⟨idles, -, hpieces⟩ := path.core_append
            have hopencore := hopen
            rw [hpieces] at hopencore
            cases hempty : parent.isEmpty with
            | true =>
                have hstart : tree.goal parent = tree.start path := by
                  obtain ⟨_, _, -, rfl⟩ := Path.pieces_of_parent? hparent
                  rw [goal, (Path.isEmpty_eq_true.mp hempty).2]
                  rfl
                rw [Option.map_some, Option.getD_some, Path.ancestors_of_isEmpty hempty,
                  List.mem_singleton] at hdir
                rw [hdir]
                refine ⟨?_, fun hdirne => by simp [hempty] at hdirne⟩
                rw [hstart]
                exact find?_start_of_open hne hopen
            | false =>
                exact ih parent hparent hempty
                  (lookup_parent hparent hempty hcheck (open_append.mp hopencore).1) dir hdir

/-- The path goes on with nothing but idle pieces. -/
def Prolongs (path short : Path) : Prop :=
  path.absolute = short.absolute ∧
    ∃ idles, (∀ piece ∈ idles, Path.isIdle piece = true) ∧ path.pieces = short.pieces ++ idles

namespace Prolongs

variable {path short : Path} {before : List String} {name : String}

theorem goal (h : Prolongs path short) (tree : FileTree) :
    tree.goal path = tree.goal short := by
  obtain ⟨habsolute, idles, hidles, hpieces⟩ := h
  unfold FileTree.goal start
  rw [habsolute, hpieces, place_append, place_of_idle hidles]

theorem pieces_of_named (h : Prolongs path short) (hnamed : Named short before name) :
    ∃ idles, (∀ piece ∈ idles, Path.isIdle piece = true) ∧
      path.pieces = before ++ name :: idles := by
  obtain ⟨-, idles, hidles, hpieces⟩ := h
  obtain ⟨slashes, hslashes, hshort⟩ := hnamed.pieces
  refine ⟨slashes ++ idles, ?_, ?_⟩
  · intro piece hpiece
    rcases List.mem_append.mp hpiece with hpiece | hpiece
    · exact hslashes piece hpiece
    · exact hidles piece hpiece
  · rw [hpieces, hshort, List.append_assoc, List.cons_append]

theorem isEmpty_of_named (h : Prolongs path short) (hnamed : Named short before name) :
    path.isEmpty = false := by
  obtain ⟨idles, -, hpieces⟩ := h.pieces_of_named hnamed
  simp [Path.isEmpty, hpieces]

theorem missingAbove (h : Prolongs path short) (hnamed : Named short before name)
    (tree : FileTree) : tree.missingAbove path = tree.missingAbove short := by
  obtain ⟨idles, hidles, hpieces⟩ := h.pieces_of_named hnamed
  have hcore := Path.core_of_name hidles (not_idle_of_isName hnamed.2).1 hpieces
  unfold FileTree.missingAbove
  rw [Path.parent?_of_core hcore, Path.parent?_of_core (core_of_named hnamed), h.1]

theorem isEmpty (h : Prolongs path short) (hne : short.isEmpty = false) :
    path.isEmpty = false := by
  obtain ⟨habsolute, idles, -, hpieces⟩ := h
  refine eq_false_of_ne_true fun hempty => ?_
  obtain ⟨hrelative, hnil⟩ := Path.isEmpty_eq_true.mp hempty
  rw [habsolute] at hrelative
  rw [hpieces] at hnil
  rw [Path.isEmpty_eq_true.mpr ⟨hrelative, (List.append_eq_nil_iff.mp hnil).1⟩] at hne
  cases hne

theorem pathExists (h : Prolongs path short) (hne : short.isEmpty = false) {tree : FileTree}
    (hexists : tree.pathExists path = true) : tree.pathExists short = true := by
  obtain ⟨node, hlookup⟩ := pathExists_eq_true.mp hexists
  obtain ⟨hcheck, hopen, -, hfind⟩ := lookup_eq_ok.mp hlookup
  rw [h.goal] at hfind
  obtain ⟨absolute, pieces⟩ := path
  obtain ⟨habsolute, idles, -, hpieces⟩ := h
  simp only at habsolute hpieces
  subst habsolute hpieces
  have htext := Path.text_append short.absolute short.pieces idles
  refine pathExists_eq_true.mpr ⟨node, lookup_eq_ok.mpr ⟨?_, ?_, rfl, hfind⟩⟩
  · exact checkPath_of_text hcheck htext hne
  · exact (open_append.mp hopen).1

/-- A path without idle pieces at its end ends in the name that one that goes on from it does. -/
theorem named (h : Prolongs path short) {pieces : List String}
    (hcore : short.pieces = Path.core ⟨short.absolute, pieces⟩)
    (hnamed : Named path before name) : Named short before name := by
  have hpathcore := core_of_named hnamed
  obtain ⟨slashes, -, hall⟩ := hnamed.pieces
  have hbusy : ¬ ∀ piece ∈ path.pieces, Path.isIdle piece = true := by
    intro hidle
    have hname := hidle name (by rw [hall]; exact List.mem_append_right before List.mem_cons_self)
    rw [(not_idle_of_isName hnamed.2).1] at hname
    cases hname
  obtain ⟨-, idles, hidles, hpieces⟩ := h
  rcases List.eq_nil_or_concat (Path.core ⟨short.absolute, pieces⟩) with hnil | ⟨init, last, heq⟩
  · refine absurd ?_ hbusy
    rw [hpieces, hcore, hnil]
    exact hidles
  · rw [List.concat_eq_append] at heq
    have hsplit : path.pieces = init ++ last :: idles := by
      rw [hpieces, hcore, heq, List.append_assoc]
      rfl
    cases hidle : Path.isIdle last with
    | true =>
        obtain hlast | ⟨rfl, -⟩ := Path.core_last heq
        · exact absurd hidle (by simp [hlast])
        · refine absurd ?_ hbusy
          rw [hsplit]
          exact List.forall_mem_cons.mpr ⟨hidle, hidles⟩
    | false =>
        have hsame := (Path.core_of_name hidles hidle hsplit).symm.trans hpathcore
        exact named_of_pieces ((hcore.trans heq).trans hsame) hnamed.2

theorem passes (h : Prolongs path short) {tree : FileTree} (hpasses : tree.PassesAbove short) :
    tree.PassesAbove path := by
  have hgoal := h.goal tree
  obtain ⟨habsolute, idles, hidles, hpieces⟩ := h
  have hstart : tree.start path = tree.start short := by
    unfold start
    rw [habsolute]
  unfold PassesAbove at hpasses ⊢
  rw [hgoal, hstart, hpieces, passes_append]
  exact ⟨hpasses, passes_of_idle hidles (Or.inr List.suffix_rfl)⟩

end Prolongs

end TableIntake.Files.FileTree
