import TableIntake.Proofs.Files.Changes

namespace TableIntake.Files

/-! The paths above a path, one for each name in it. -/

namespace Path

theorem core_append (path : Path) :
    ∃ idles, (∀ piece ∈ idles, isIdle piece = true) ∧ path.pieces = path.core ++ idles := by
  obtain ⟨absolute, pieces⟩ := path
  obtain ⟨idles, hidles, heq⟩ := reverse_dropWhile_append isIdle pieces
  unfold core
  cases hcore : (pieces.reverse.dropWhile isIdle).reverse with
  | cons first rest =>
      rw [hcore] at heq
      exact ⟨idles, hidles, heq⟩
  | nil =>
      rw [hcore, List.nil_append] at heq
      subst heq
      cases pieces with
      | nil => exact ⟨[], hidles, rfl⟩
      | cons first rest =>
          simp only
          split
          · exact ⟨rest, fun piece hpiece => hidles piece (List.mem_cons_of_mem _ hpiece), rfl⟩
          · exact ⟨first :: rest, hidles, rfl⟩

theorem length_core_le (path : Path) : path.core.length ≤ path.pieces.length := by
  obtain ⟨idles, -, heq⟩ := path.core_append
  rw [heq, List.length_append]
  exact Nat.le_add_right _ _

theorem core_of_name {path : Path} {before idles : List String} {name : String}
    (hidles : ∀ piece ∈ idles, isIdle piece = true) (hname : isIdle name = false)
    (h : path.pieces = before ++ name :: idles) : path.core = before ++ [name] := by
  have hdrop : (path.pieces.reverse.dropWhile isIdle).reverse = before ++ [name] := by
    rw [h, List.reverse_append, List.reverse_cons, List.append_assoc,
      List.dropWhile_append_of_pos fun piece hpiece => hidles piece (List.mem_reverse.mp hpiece)]
    simp [hname]
  unfold core
  rw [hdrop]
  cases before <;> rfl

/-- Only a path that is nothing but a reference to the current directory ends in one. -/
theorem core_last {path : Path} {before : List String} {last : String}
    (h : path.core = before ++ [last]) :
    isIdle last = false ∨ before = [] ∧ path.absolute = false := by
  unfold core at h
  cases hdrop : path.pieces.reverse.dropWhile isIdle with
  | cons first rest =>
      have hfirst := List.head?_dropWhile_not isIdle path.pieces.reverse
      rw [hdrop] at h hfirst
      cases hreverse : (first :: rest).reverse with
      | nil => simp at hreverse
      | cons other others =>
          rw [hreverse] at h
          have hlast : (first :: rest).reverse = before ++ [last] := hreverse.trans h
          rw [List.reverse_cons] at hlast
          have hsame : first = last := List.singleton_inj.mp (List.append_inj' hlast rfl).2
          left
          rw [← hsame]
          simpa using hfirst
  | nil =>
      rw [hdrop, List.reverse_nil] at h
      cases hpieces : path.pieces with
      | nil => simp [hpieces] at h
      | cons first rest =>
          simp only [hpieces] at h
          split at h
          case isTrue hrelative =>
              right
              have hlength := congrArg List.length h
              simp at hlength hrelative
              exact ⟨hlength, hrelative.1⟩
          case isFalse => simp at h

theorem parent?_of_core {path : Path} {before : List String} {name : String}
    (h : path.core = before ++ [name]) :
    path.parent? = some ⟨path.absolute, core ⟨path.absolute, before⟩⟩ := by
  unfold parent?
  rw [h]
  cases before with
  | nil => rfl
  | cons first before =>
      have hdrop : (first :: before ++ [name]).dropLast = first :: before :=
        List.dropLast_concat
      rw [List.cons_append] at hdrop
      simp only [List.cons_append, hdrop]

theorem parent?_of_core_nil {path : Path} (h : path.core = []) : path.parent? = none := by
  unfold parent?
  rw [h]

theorem pieces_of_parent? {path parent : Path} (h : path.parent? = some parent) :
    ∃ before last, path.core = before ++ [last] ∧
      parent = ⟨path.absolute, core ⟨path.absolute, before⟩⟩ := by
  rcases List.eq_nil_or_concat path.core with hnil | ⟨before, last, heq⟩
  · rw [parent?_of_core_nil hnil] at h
    cases h
  · rw [List.concat_eq_append] at heq
    rw [parent?_of_core heq] at h
    exact ⟨before, last, heq, (Option.some.inj h).symm⟩

theorem length_core_parent {path parent : Path} (h : path.parent? = some parent) :
    parent.core.length < path.core.length := by
  obtain ⟨before, last, heq, rfl⟩ := pieces_of_parent? h
  have houter := length_core_le ⟨path.absolute, core ⟨path.absolute, before⟩⟩
  have hinner := length_core_le ⟨path.absolute, before⟩
  simp only at houter hinner
  rw [heq, List.length_append, List.length_singleton]
  omega

theorem parent_induction {motive : Path → Prop}
    (step : ∀ path, (∀ parent, path.parent? = some parent → motive parent) → motive path)
    (path : Path) : motive path := by
  have hall : ∀ n (path : Path), path.core.length < n → motive path := by
    intro n
    induction n with
    | zero => exact fun path h => absurd h (Nat.not_lt_zero _)
    | succ n ih =>
        intro path h
        refine step path fun parent hparent => ih parent ?_
        have hlt := length_core_parent hparent
        omega
  exact hall _ path (Nat.lt_succ_self _)

theorem chain_eq_of_le {n m : Nat} (path : Path) (hn : path.core.length ≤ n)
    (hm : path.core.length ≤ m) : chain n path = chain m path := by
  induction n generalizing m path with
  | zero =>
      have hnil : path.core = [] := List.length_eq_zero_iff.mp (Nat.le_zero.mp hn)
      cases m with
      | zero => rfl
      | succ m => simp only [chain, parent?_of_core_nil hnil]
  | succ n ih =>
      cases hparent : path.parent? with
      | none =>
          cases m with
          | zero => simp only [chain, hparent]
          | succ m => simp only [chain, hparent]
      | some parent =>
          have hlt := length_core_parent hparent
          cases m with
          | zero => omega
          | succ m =>
              have hleft : parent.core.length ≤ n := by omega
              have hright : parent.core.length ≤ m := by omega
              simp only [chain, hparent]
              rw [ih parent hleft hright]

/-- The fuel of ancestors is always enough. -/
theorem ancestors_eq (path : Path) :
    path.ancestors = path :: (path.parent?.map ancestors).getD [] := by
  unfold ancestors
  rw [chain_eq_of_le path path.length_core_le (Nat.le_succ_of_le path.length_core_le), chain]
  cases hparent : path.parent? with
  | none => rfl
  | some parent =>
      have hlt := length_core_parent hparent
      have hle := path.length_core_le
      simp only [Option.map_some, Option.getD_some]
      rw [chain_eq_of_le parent (by omega) parent.length_core_le]

theorem isEmpty_eq_true {path : Path} :
    path.isEmpty = true ↔ path.absolute = false ∧ path.pieces = [] := by
  simp [isEmpty]

theorem ancestors_of_isEmpty {path : Path} (h : path.isEmpty = true) :
    path.ancestors = [path] := by
  have hle := path.length_core_le
  rw [(isEmpty_eq_true.mp h).2] at hle
  rw [ancestors_eq, parent?_of_core_nil (List.length_eq_zero_iff.mp (Nat.le_zero.mp hle))]
  rfl

end Path

namespace FileTree

theorem place_core (path : Path) (location : Location) :
    place location path.core = place location path.pieces := by
  obtain ⟨idles, hidles, heq⟩ := path.core_append
  rw [heq, place_append, place_of_idle hidles]

theorem core_of_named {path : Path} {before : List String} {name : String}
    (h : Named path before name) : path.core = before ++ [name] := by
  obtain ⟨slashes, hslashes, heq⟩ := h.pieces
  exact Path.core_of_name hslashes (not_idle_of_isName h.2).1 heq

theorem goal_parent {tree : FileTree} {path parent : Path} {before : List String} {name : String}
    (h : Named path before name) (hparent : path.parent? = some parent) :
    tree.goal parent = place (tree.start path) before := by
  rw [Path.parent?_of_core (core_of_named h)] at hparent
  cases hparent
  exact place_core ⟨path.absolute, before⟩ _

theorem pieces_subset_of_parent? {path parent : Path} (h : path.parent? = some parent) :
    parent.pieces ⊆ path.pieces := by
  obtain ⟨before, last, heq, rfl⟩ := Path.pieces_of_parent? h
  obtain ⟨idles, -, hpieces⟩ := path.core_append
  obtain ⟨others, -, hbefore⟩ := Path.core_append ⟨path.absolute, before⟩
  intro piece hmem
  simp only at hbefore
  rw [hpieces, heq, hbefore]
  simp only [List.mem_append]
  exact Or.inl (Or.inl (Or.inl hmem))

theorem parents_of_parent? {path parent : Path} (h : path.parent? = some parent)
    (hdown : ".." ∉ path.pieces) : ".." ∉ parent.pieces :=
  fun hmem => hdown (pieces_subset_of_parent? h hmem)

theorem goal_of_mem_ancestors (tree : FileTree) {path : Path} (hdown : ".." ∉ path.pieces) :
    ∀ dir ∈ path.ancestors, tree.goal dir <:+ tree.goal path ∧ ".." ∉ dir.pieces := by
  induction path using Path.parent_induction with
  | step path ih =>
      intro dir hdir
      rw [Path.ancestors_eq, List.mem_cons] at hdir
      rcases hdir with rfl | hdir
      · exact ⟨List.suffix_rfl, hdown⟩
      · cases hparent : path.parent? with
        | none => simp [hparent] at hdir
        | some parent =>
            rw [hparent] at hdir
            have hparents := parents_of_parent? hparent hdown
            obtain ⟨hsuffix, hdirs⟩ := ih parent hparent hparents dir hdir
            refine ⟨hsuffix.trans ?_, hdirs⟩
            obtain ⟨before, last, heq, rfl⟩ := Path.pieces_of_parent? hparent
            have hgoal : tree.goal path = place (place (tree.start path) before) [last] := by
              rw [goal, ← place_core path, heq, place_append]
            have hlast : ".." ∉ [last] := by
              obtain ⟨idles, -, hpieces⟩ := path.core_append
              intro hmem
              refine hdown ?_
              rw [hpieces, heq]
              simp only [List.mem_append]
              exact Or.inl (Or.inr hmem)
            rw [hgoal]
            have hstart : tree.goal ⟨path.absolute, Path.core ⟨path.absolute, before⟩⟩ =
                place (tree.start path) before :=
              place_core ⟨path.absolute, before⟩ _
            rw [hstart]
            exact suffix_place hlast _

end FileTree

end TableIntake.Files
