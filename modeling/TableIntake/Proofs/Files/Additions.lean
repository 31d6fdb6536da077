import TableIntake.Proofs.Files.Naming

namespace TableIntake.Files.FileTree

/-! What making adds to a tree and removing takes from it. -/

theorem find?_of_insert {tree : FileTree} {place l : Location} {node found : Node}
    (h : (tree.insert place node).find? l = some found) :
    tree.find? l = some found ∨ found = node ∧ l = place := by
  by_cases heq : l = place
  · subst heq
    by_cases hnil : l = []
    · subst hnil
      exact Or.inl h
    · rw [tree.find?_insert_self node hnil] at h
      exact Or.inr ⟨(Option.some.inj h).symm, rfl⟩
  · rw [tree.find?_insert_of_ne node heq] at h
    exact Or.inl h

theorem find?_of_replace {tree : FileTree} {place l : Location} {node found : Node}
    (h : (tree.replace place node).find? l = some found) :
    l ≠ place ∧ tree.find? l = some found ∨ l = place := by
  by_cases heq : l = place
  · exact Or.inr heq
  · rw [tree.find?_replace_of_ne node heq] at h
    exact Or.inl ⟨heq, h⟩

/-- Making adds nothing but directories, and these only where the paths lead. -/
theorem find?_of_makeChain {tree : FileTree} {paths : List Path} {l : Location} {node : Node}
    (h : (tree.makeChain paths).2.find? l = some node) :
    tree.find? l = some node ∨ node = .directory ∧ ∃ path ∈ paths, l = tree.goal path := by
  have hall : (tree.makeChain paths).2.here = tree.here ∧
      ∀ l node, (tree.makeChain paths).2.find? l = some node →
        tree.find? l = some node ∨ node = .directory ∧ ∃ path ∈ paths, l = tree.goal path := by
    refine makeChain_induction (motive := fun later => later.here = tree.here ∧
      ∀ l node, later.find? l = some node →
        tree.find? l = some node ∨ node = .directory ∧ ∃ path ∈ paths, l = tree.goal path)
      paths ?_ ⟨rfl, fun _ _ => Or.inl⟩
    rintro path hpath before later ⟨hhere, hbefore⟩ hmake
    obtain ⟨-, -, -, -, -, -, rfl⟩ := makeDirectory_eq_ok hmake
    refine ⟨hhere, fun l node hfind => ?_⟩
    rcases find?_of_insert hfind with hold | ⟨hnode, hl⟩
    · exact hbefore l node hold
    · rw [goal_of_here hhere] at hl
      exact Or.inr ⟨hnode, path, hpath, hl⟩
  exact hall.2 l node h

/-- What is made before making a path fails is above the path. -/
theorem makeChain_of_error {tree left : FileTree} {path : Path} {parents : List Path} {e : Error}
    (h : tree.makeChain (path :: parents) = (.error e, left)) :
    left = tree ∨ left = (tree.makeChain parents).2 := by
  cases makeChain_eq_error h with
  | inl hsame => exact Or.inl hsame
  | inr hlacking =>
      obtain ⟨-, hparents | ⟨hparents, -⟩⟩ := hlacking
      · rw [hparents]
        exact Or.inr rfl
      · rw [hparents]
        exact Or.inr rfl

theorem Reaches.lookup {tree later : FileTree} {path : Path} (h : tree.Reaches path later) :
    later.lookup path = .ok (later.goal path, .directory) := by
  obtain hmake | ⟨rfl, hdir⟩ := h
  · exact lookup_of_makeDirectory hmake
  · exact isDirectory_eq_true.mp hdir

theorem lookup_of_makeDirectories {tree later : FileTree} {path : Path}
    (hne : path.isEmpty = false) (h : tree.makeDirectories path = (.ok (), later)) :
    later.lookup path = .ok (later.goal path, .directory) := by
  have hchain : tree.makeChain (needed path) = (.ok (), later) := h
  rw [needed_eq_cons hne] at hchain
  cases makeChain_eq_ok hchain with
  | inl hreaches => exact hreaches.lookup
  | inr hlacking =>
      obtain ⟨middle, -, -, hreaches⟩ := hlacking
      exact hreaches.lookup

/-! Walks without references to parents pass only what is above the place they lead to. -/

theorem passes_of_down {pieces : List String} (hdown : ".." ∉ pieces) (location : Location) :
    Passes (· <:+ place location pieces) location pieces := by
  induction pieces generalizing location with
  | nil => trivial
  | cons piece pieces ih =>
      exact ⟨suffix_place hdown location, ih (fun hmem => hdown (List.mem_cons_of_mem _ hmem)) _⟩

theorem Rooted.above {tree : FileTree} (h : tree.Rooted) {location l : Location}
    (hdir : tree.find? location = some .directory) (hl : l <:+ location) :
    tree.find? l = some .directory := by
  by_cases heq : l = location
  · rw [heq, hdir]
  · exact h.of_find? hdir hl heq

/-- If there is a directory where a path leads, and there comes to be a way to it, there was one. -/
theorem Rooted.lookup_of_later {tree later : FileTree} (h : tree.Rooted) {path : Path}
    (hdown : ".." ∉ path.pieces)
    (hfind : tree.find? (tree.goal path) = some .directory)
    (hlookup : later.lookup path = .ok (later.goal path, .directory)) :
    tree.lookup path = .ok (tree.goal path, .directory) := by
  obtain ⟨hcheck, hopen, -, -⟩ := lookup_eq_ok.mp hlookup
  refine lookup_eq_ok.mpr ⟨hcheck, open_of_passes ?_ hopen.short, rfl, hfind⟩
  exact (passes_of_down hdown _).mono fun l hl => h.above hfind hl

/-- Nothing is at the directories that are missing of a path, if it can be made. -/
theorem Rooted.find?_of_mem_missing {tree later : FileTree} (h : tree.Rooted)
    (hkeeps : Keeps tree later) {path dir : Path} (hdown : ".." ∉ path.pieces)
    (hfound : path.isEmpty = false → later.lookup path = .ok (later.goal path, .directory))
    (hdir : dir ∈ tree.missing path) : tree.find? (tree.goal dir) = none := by
  have hmem : dir ∈ path.ancestors := (List.takeWhile_sublist _).subset hdir
  have hmissing := List.all_eq_true.mp List.all_takeWhile dir hdir
  simp only [Bool.and_eq_true, Bool.not_eq_true'] at hmissing
  obtain ⟨hne, habsent⟩ := hmissing
  cases hpath : path.isEmpty with
  | true => simp [missing_of_pathExists (Or.inl hpath)] at hdir
  | false =>
      cases hfind : tree.find? (tree.goal dir) with
      | none => rfl
      | some node =>
          obtain ⟨hthere, hlookup⟩ := found_of_mem_ancestors hpath (hfound hpath) dir hmem
          rw [hkeeps.goal, hkeeps.found _ _ hfind] at hthere
          cases hthere
          have hold := h.lookup_of_later (tree.goal_of_mem_ancestors hdown dir hmem).2 hfind
            (hlookup hne)
          rw [pathExists_eq_true.mpr ⟨_, hold⟩] at habsent
          cases habsent

/-! Filling and removing keep everything in a directory of the tree. -/

theorem Rooted.replace {tree : FileTree} (h : tree.Rooted) {place : Location}
    {old : List UInt8} (hfile : tree.find? place = some (.file old)) (node : Node) :
    (tree.replace place node).Rooted := by
  have hkeeps := keepsBut_replace hfile node
  intro l found hmem
  obtain ⟨⟨first, second⟩, hentry, heq⟩ := List.mem_map.mp hmem
  obtain ⟨hne, hdir⟩ := h first second hentry
  have hfirst : first = l := by
    by_cases hplace : first = place
    · simp only [hplace, if_true] at heq
      rw [hplace]
      exact (Prod.mk.inj heq).1
    · simp only [hplace, if_false] at heq
      exact (Prod.mk.inj heq).1
  subst hfirst
  exact ⟨hne, hkeeps.directory _ hdir⟩

theorem Rooted.writeFile {tree later : FileTree} (h : tree.Rooted) {path : Path}
    {bytes : List UInt8} (hwrite : tree.writeFile path bytes = .ok later) : later.Rooted := by
  obtain ⟨-, -, habove, ⟨hnone, rfl⟩ | ⟨old, hfile, rfl⟩⟩ := writeFile_eq_ok hwrite
  · exact h.insert hnone habove _
  · exact h.replace hfile _

theorem find?_of_prune {tree : FileTree} {place l : Location} {node : Node} (hne : place ≠ [])
    (h : (tree.prune place).find? l = some node) :
    tree.find? l = some node ∧ ¬ place <:+ l := by
  have hout : ¬ place <:+ l := by
    intro hsuffix
    have hl : l ≠ [] := by
      rintro rfl
      exact hne (List.suffix_nil.mp hsuffix)
    cases (tree.find?_prune_of_suffix hl hsuffix).symm.trans h
  rw [tree.find?_prune_of_not_suffix hout] at h
  exact ⟨h, hout⟩

theorem Rooted.prune {tree : FileTree} (h : tree.Rooted) (place : Location) :
    (tree.prune place).Rooted := by
  intro l node hmem
  obtain ⟨hentry, hkept⟩ := List.mem_filter.mp hmem
  obtain ⟨hne, hdir⟩ := h l node hentry
  have hout : ¬ place <:+ l.tail := by
    intro hsuffix
    have hall := List.isSuffixOf_iff_suffix.mpr (hsuffix.trans (List.tail_suffix l))
    simp [hall] at hkept
  exact ⟨hne, (tree.find?_prune_of_not_suffix hout).trans hdir⟩

/-- Where there was nothing at first, removing takes nothing that was there at first. -/
theorem Rooted.keeps_prune {tree later : FileTree} (h : tree.Rooted) (hkeeps : Keeps tree later)
    {place : Location} (hnone : tree.find? place = none) : Keeps tree (later.prune place) where
  here := hkeeps.here
  found := by
    intro l node hfind
    have hout : ¬ place <:+ l := by
      intro hsuffix
      cases (h.find?_of_suffix hnone hsuffix).symm.trans hfind
    rw [later.find?_prune_of_not_suffix hout]
    exact hkeeps.found l node hfind

theorem exists_cons_suffix {l upper : List α} (h : upper <:+ l) (hne : upper ≠ l) :
    ∃ a, a :: upper <:+ l := by
  obtain ⟨before, rfl⟩ := h
  rcases List.eq_nil_or_concat before with hnil | ⟨first, a, heq⟩
  · subst hnil
    exact absurd rfl hne
  · refine ⟨a, first, ?_⟩
    rw [heq, List.concat_eq_append, List.append_assoc]
    rfl

theorem removeDirectory_eq_ok {tree later : FileTree} {path : Path}
    (h : tree.removeDirectory path = .ok later) :
    (∀ name, tree.find? (name :: tree.goal path) = none) ∧
      later = tree.prune (tree.goal path) := by
  simp only [removeDirectory, bind_eq_ok] at h
  obtain ⟨⟨location, last⟩, hsplit, hresult⟩ := h
  by_cases hempty : last = ""
  · simp [hempty] at hresult
  by_cases hdot : last = "."
  · simp [hdot] at hresult
  by_cases hparent : last = ".."
  · simp [hparent] at hresult
  have hname : isName last = true := by simp [isName, Path.isIdle, hempty, hdot, hparent]
  simp only [hempty, hdot, hparent, if_false, bind_eq_ok, step_eq_ok] at hresult
  obtain ⟨there, ⟨-, rfl⟩, hremove⟩ := hresult
  have hgoal : hop location last = tree.goal path := by
    rcases List.eq_nil_or_concat (withoutSlashes path) with hnil | ⟨before, name, hpieces⟩
    · rw [hnil] at hsplit
      exact absurd (split_nil_eq_ok hsplit) hempty
    · rw [List.concat_eq_append] at hpieces
      rw [hpieces, split_eq_ok] at hsplit
      obtain ⟨-, -, -, rfl, rfl⟩ := hsplit
      have hnamed : Named path before name := ⟨hpieces, hname⟩
      rw [hop_of_isName hname, hnamed.goal tree]
  rw [hgoal] at hremove
  split at hremove
  case h_1 => cases hremove
  case h_2 => cases hremove
  case h_3 =>
      split at hremove
      case isTrue => cases hremove
      case isFalse hany =>
          cases hremove
          refine ⟨fun name => ?_, rfl⟩
          cases hfind : tree.find? (name :: tree.goal path) with
          | none => rfl
          | some node =>
              refine absurd (List.any_eq_true.mpr ⟨_, mem_of_find? ?_ hfind, ?_⟩) hany
              · exact List.cons_ne_nil _ _
              · simp

end TableIntake.Files.FileTree
