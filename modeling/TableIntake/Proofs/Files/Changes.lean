import TableIntake.Proofs.Files.Walk

namespace TableIntake.Files

/-! Changes: what making, filling and removing do to the places of a tree. -/

theorem reverse_dropWhile_append (p : α → Bool) (l : List α) :
    ∃ tail, (∀ a ∈ tail, p a = true) ∧ l = (l.reverse.dropWhile p).reverse ++ tail := by
  refine ⟨(l.reverse.takeWhile p).reverse, ?_, ?_⟩
  · intro a ha
    exact List.all_eq_true.mp List.all_takeWhile a (List.mem_reverse.mp ha)
  · rw [← List.reverse_append, List.takeWhile_append_dropWhile, List.reverse_reverse]

namespace FileTree

theorem withoutSlashes_append (path : Path) :
    ∃ slashes, (∀ piece ∈ slashes, Path.isIdle piece = true) ∧
      path.pieces = withoutSlashes path ++ slashes := by
  obtain ⟨slashes, hslashes, heq⟩ := reverse_dropWhile_append (· = "") path.pieces
  refine ⟨slashes, fun piece hpiece => ?_, heq⟩
  have hempty : piece = "" := of_decide_eq_true (hslashes piece hpiece)
  rw [hempty]
  rfl

/-- The path ends in a name. -/
def Named (path : Path) (before : List String) (name : String) : Prop :=
  withoutSlashes path = before ++ [name] ∧ isName name = true

namespace Named

variable {path : Path} {before : List String} {name : String}

theorem pieces (h : Named path before name) :
    ∃ slashes, (∀ piece ∈ slashes, Path.isIdle piece = true) ∧
      path.pieces = before ++ name :: slashes := by
  obtain ⟨slashes, hslashes, heq⟩ := withoutSlashes_append path
  refine ⟨slashes, hslashes, ?_⟩
  rw [heq, h.1]
  simp

theorem goal (h : Named path before name) (tree : FileTree) :
    tree.goal path = name :: place (tree.start path) before := by
  obtain ⟨slashes, hslashes, heq⟩ := h.pieces
  rw [FileTree.goal, heq, place_append, place_cons, hop_of_isName h.2, place_of_idle hslashes]

end Named

theorem find?_nil (tree : FileTree) : tree.find? [] = some .directory := rfl

theorem ne_nil_of_find?_eq_none {tree : FileTree} {location : Location}
    (h : tree.find? location = none) : location ≠ [] := by
  rintro rfl
  cases h

theorem makeDirectory_eq_ok {tree later : FileTree} {path : Path}
    (h : tree.makeDirectory path = .ok later) :
    ∃ before name, Named path before name ∧ checkPath path = .ok () ∧
      tree.Open (tree.start path) (before ++ [name]) ∧ tree.find? (tree.goal path) = none ∧
      later = tree.insert (tree.goal path) .directory := by
  simp only [makeDirectory, bind_eq_ok] at h
  obtain ⟨⟨location, last⟩, hsplit, hresult⟩ := h
  cases hname : isName last with
  | false => simp [hname] at hresult
  | true =>
      simp only [hname, Bool.not_true, Bool.false_eq_true, if_false, bind_eq_ok, step_eq_ok]
        at hresult
      obtain ⟨place, ⟨hshort, rfl⟩, hinsert⟩ := hresult
      rcases List.eq_nil_or_concat (withoutSlashes path) with hnil | ⟨before, name, hpieces⟩
      · rw [hnil] at hsplit
        cases split_nil_eq_ok hsplit
        cases hname
      · rw [List.concat_eq_append] at hpieces
        rw [hpieces, split_eq_ok] at hsplit
        obtain ⟨hcheck, hopen, hdir, rfl, rfl⟩ := hsplit
        have hnamed : Named path before name := ⟨hpieces, hname⟩
        rw [hop_of_isName hname, ← hnamed.goal tree] at hinsert
        cases hfind : tree.find? (tree.goal path) with
        | some node => simp [hfind] at hinsert
        | none =>
            simp only [hfind] at hinsert
            cases hinsert
            refine ⟨before, name, hnamed, hcheck, ?_, rfl, rfl⟩
            exact open_append.mpr ⟨hopen, open_singleton.mpr ⟨hdir, hshort⟩⟩

theorem writeFile_eq_ok {tree later : FileTree} {path : Path} {bytes : List UInt8}
    (h : tree.writeFile path bytes = .ok later) :
    checkPath path = .ok () ∧ tree.Open (tree.start path) path.pieces ∧
      tree.find? (tree.goal path).tail = some .directory ∧
      ((tree.find? (tree.goal path) = none ∧
          later = tree.insert (tree.goal path) (.file bytes)) ∨
        ∃ old, tree.find? (tree.goal path) = some (.file old) ∧
          later = tree.replace (tree.goal path) (.file bytes)) := by
  simp only [writeFile, bind_eq_ok] at h
  obtain ⟨⟨location, last⟩, hsplit, hresult⟩ := h
  cases hname : isName last with
  | false => simp [hname] at hresult
  | true =>
      simp only [hname, Bool.not_true, Bool.false_eq_true, if_false, bind_eq_ok, step_eq_ok]
        at hresult
      obtain ⟨there, ⟨hshort, rfl⟩, hwrite⟩ := hresult
      rcases List.eq_nil_or_concat path.pieces with hnil | ⟨before, name, hpieces⟩
      · rw [hnil] at hsplit
        cases split_nil_eq_ok hsplit
        cases hname
      · rw [List.concat_eq_append] at hpieces
        rw [hpieces, split_eq_ok] at hsplit
        obtain ⟨hcheck, hopen, hdir, rfl, rfl⟩ := hsplit
        have hgoal : tree.goal path = hop (place (tree.start path) before) name := by
          rw [goal, hpieces, place_append, place_cons, place_nil]
        have hall : tree.Open (tree.start path) path.pieces := by
          rw [hpieces]
          exact open_append.mpr ⟨hopen, open_singleton.mpr ⟨hdir, hshort⟩⟩
        have habove : tree.find? (tree.goal path).tail = some .directory := by
          rw [hgoal, hop_of_isName hname]
          exact hdir
        rw [← hgoal] at hwrite
        refine ⟨hcheck, hall, habove, ?_⟩
        cases hfind : tree.find? (tree.goal path) with
        | none =>
            simp only [hfind] at hwrite
            cases hwrite
            exact Or.inl ⟨rfl, rfl⟩
        | some node =>
            cases node with
            | directory => simp [hfind] at hwrite
            | file old =>
                simp only [hfind] at hwrite
                cases hwrite
                exact Or.inr ⟨old, rfl, rfl⟩

private theorem lookup_replaced (nodes : List (Location × Node)) (location other : Location)
    (node : Node) :
    (nodes.map fun (l, n) => if l = location then (l, node) else (l, n)).lookup other =
      if other = location then (nodes.lookup other).map fun _ => node
      else nodes.lookup other := by
  induction nodes with
  | nil => simp
  | cons entry nodes ih =>
      obtain ⟨l, n⟩ := entry
      by_cases hl : l = location
      · by_cases hother : other = location
        · simp [hl, hother]
        · have hne : (other == location) = false := by simpa using hother
          simpa [hl, hother, List.lookup_cons, hne] using ih
      · by_cases hother : other = l
        · simp [hother, hl]
        · have hne : (other == l) = false := by simpa using hother
          simpa [hl, List.lookup_cons, hne] using ih

theorem find?_replace_self (tree : FileTree) {location : Location} {node old : Node}
    (hne : location ≠ []) (h : tree.find? location = some old) :
    (tree.replace location node).find? location = some node := by
  have hold : tree.nodes.lookup location = some old := by simpa [find?, hne] using h
  simp [find?, replace, hne, lookup_replaced, hold]

theorem find?_replace_of_ne (tree : FileTree) {location other : Location} (node : Node)
    (h : other ≠ location) :
    (tree.replace location node).find? other = tree.find? other := by
  simp [find?, replace, lookup_replaced, h]

/-- What there was stays. -/
structure Keeps (tree later : FileTree) : Prop where
  here : later.here = tree.here
  found : ∀ l node, tree.find? l = some node → later.find? l = some node

/-- What there was stays, unless it was a file at one place. -/
structure KeepsBut (location : Location) (tree later : FileTree) : Prop where
  here : later.here = tree.here
  directory : ∀ l, tree.find? l = some .directory → later.find? l = some .directory
  other : ∀ l node, l ≠ location → tree.find? l = some node → later.find? l = some node

namespace KeepsBut

variable {location : Location} {tree later last : FileTree}

theorem trans (first : KeepsBut location tree later) (second : KeepsBut location later last) :
    KeepsBut location tree last where
  here := second.here.trans first.here
  directory := fun l h => second.directory l (first.directory l h)
  other := fun l node hne h => second.other l node hne (first.other l node hne h)

theorem start (h : KeepsBut location tree later) (path : Path) :
    later.start path = tree.start path :=
  start_of_here h.here path

theorem goal (h : KeepsBut location tree later) (path : Path) :
    later.goal path = tree.goal path :=
  goal_of_here h.here path

theorem lookup (h : KeepsBut location tree later) {path : Path} {node : Node}
    (hlookup : tree.lookup path = .ok (tree.goal path, node))
    (hne : tree.goal path ≠ location) :
    later.lookup path = .ok (later.goal path, node) := by
  obtain ⟨hcheck, hopen, -, hfind⟩ := lookup_eq_ok.mp hlookup
  refine lookup_eq_ok.mpr ⟨hcheck, ?_, rfl, ?_⟩
  · rw [h.start]
    exact hopen.mono h.directory
  · rw [h.goal]
    exact h.other _ node hne hfind

end KeepsBut

namespace Keeps

variable {tree later last : FileTree}

theorem refl (tree : FileTree) : Keeps tree tree :=
  ⟨rfl, fun _ _ h => h⟩

theorem trans (first : Keeps tree later) (second : Keeps later last) : Keeps tree last where
  here := second.here.trans first.here
  found := fun l node h => second.found l node (first.found l node h)

theorem but (h : Keeps tree later) (location : Location) : KeepsBut location tree later :=
  ⟨h.here, fun l => h.found l _, fun l node _ => h.found l node⟩

theorem goal (h : Keeps tree later) (path : Path) : later.goal path = tree.goal path :=
  goal_of_here h.here path

theorem find?_eq_none (h : Keeps tree later) {l : Location} (hnone : later.find? l = none) :
    tree.find? l = none := by
  cases hfind : tree.find? l with
  | none => rfl
  | some node => cases hnone.symm.trans (h.found l node hfind)

theorem lookup (h : Keeps tree later) {path : Path} {node : Node}
    (hlookup : tree.lookup path = .ok (tree.goal path, node)) :
    later.lookup path = .ok (later.goal path, node) := by
  obtain ⟨hcheck, hopen, -, hfind⟩ := lookup_eq_ok.mp hlookup
  refine lookup_eq_ok.mpr ⟨hcheck, ?_, rfl, ?_⟩
  · rw [start_of_here h.here]
    exact hopen.mono fun l => h.found l _
  · rw [h.goal]
    exact h.found _ node hfind

end Keeps

theorem keeps_insert {tree : FileTree} {place : Location} (node : Node)
    (h : tree.find? place = none) : Keeps tree (tree.insert place node) where
  here := rfl
  found := by
    intro l old hold
    have hne : l ≠ place := by
      rintro rfl
      cases h.symm.trans hold
    rw [tree.find?_insert_of_ne node hne, hold]

theorem keepsBut_replace {tree : FileTree} {location : Location} {old : List UInt8}
    (h : tree.find? location = some (.file old)) (node : Node) :
    KeepsBut location tree (tree.replace location node) where
  here := rfl
  directory := by
    intro l hl
    have hne : l ≠ location := by
      rintro rfl
      cases h.symm.trans hl
    rw [tree.find?_replace_of_ne node hne, hl]
  other := fun l old hne hl => (tree.find?_replace_of_ne node hne).trans hl

/-- A file that was filled holds its bytes, and all else is as it was. -/
theorem writeFile_spec {tree later : FileTree} {path : Path} {bytes : List UInt8}
    (h : tree.writeFile path bytes = .ok later) :
    KeepsBut (tree.goal path) tree later ∧
      later.lookup path = .ok (tree.goal path, .file bytes) := by
  obtain ⟨hcheck, hopen, -, hwrite⟩ := writeFile_eq_ok h
  have hkept : KeepsBut (tree.goal path) tree later ∧
      later.find? (tree.goal path) = some (.file bytes) := by
    rcases hwrite with ⟨hnone, rfl⟩ | ⟨old, hold, rfl⟩
    · exact ⟨(keeps_insert _ hnone).but _,
        tree.find?_insert_self _ (ne_nil_of_find?_eq_none hnone)⟩
    · refine ⟨keepsBut_replace hold _, tree.find?_replace_self ?_ hold⟩
      intro hnil
      rw [hnil, find?_nil] at hold
      cases hold
  obtain ⟨hkeeps, hfile⟩ := hkept
  refine ⟨hkeeps, lookup_eq_ok.mpr ⟨hcheck, ?_, hkeeps.goal path, hfile⟩⟩
  rw [hkeeps.start]
  exact hopen.mono hkeeps.directory

theorem makeChain_induction {motive : FileTree → Prop} (paths : List Path)
    (hstep : ∀ path ∈ paths, ∀ tree later, motive tree →
      tree.makeDirectory path = .ok later → motive later)
    {tree : FileTree} (h : motive tree) : motive (tree.makeChain paths).2 := by
  induction paths generalizing tree with
  | nil => exact h
  | cons path parents ih =>
      have hparents := ih (fun other hother => hstep other (List.mem_cons_of_mem _ hother)) h
      have hpath := hstep path List.mem_cons_self
      unfold makeChain
      split
      case h_1 later hmake => exact hpath tree later h hmake
      case h_2 =>
          split
          case h_1 e later hchain =>
              rw [hchain] at hparents
              exact hparents
          case h_2 later hchain =>
              rw [hchain] at hparents
              split
              case h_1 last hmake => exact hpath later last hparents hmake
              case h_2 => exact hparents
      case h_3 => exact h

/-- The path is made, or it was there. -/
def Reaches (tree : FileTree) (path : Path) (later : FileTree) : Prop :=
  tree.makeDirectory path = .ok later ∨ later = tree ∧ tree.isDirectory path = true

/-- A chain reaches its path at once, or once those above it are there. -/
theorem makeChain_eq_ok {tree later : FileTree} {path : Path} {parents : List Path}
    (h : tree.makeChain (path :: parents) = (.ok (), later)) :
    tree.Reaches path later ∨
      ∃ middle, tree.makeDirectory path = .error .notFound ∧
        tree.makeChain parents = (.ok (), middle) ∧ middle.Reaches path later := by
  rw [makeChain] at h
  split at h
  case h_1 hmake =>
      cases h
      exact Or.inl (Or.inl hmake)
  case h_2 hlack =>
      split at h
      case h_1 => cases h
      case h_2 middle hparents =>
          refine Or.inr ⟨middle, hlack, hparents, ?_⟩
          split at h
          case h_1 hmake =>
              cases h
              exact Or.inl hmake
          case h_2 =>
              split at h
              case isTrue hdir =>
                  cases h
                  exact Or.inr ⟨rfl, hdir⟩
              case isFalse => cases h
  case h_3 =>
      split at h
      case isTrue hdir =>
          cases h
          exact Or.inl (Or.inr ⟨rfl, hdir⟩)
      case isFalse => cases h

/-- A chain fails at its path with nothing made, above its path, or at its path once those above it
are there. -/
theorem makeChain_eq_error {tree left : FileTree} {path : Path} {parents : List Path} {e : Error}
    (h : tree.makeChain (path :: parents) = (.error e, left)) :
    left = tree ∨
      tree.makeDirectory path = .error .notFound ∧
        (tree.makeChain parents = (.error e, left) ∨
          tree.makeChain parents = (.ok (), left) ∧ left.makeDirectory path = .error e) := by
  rw [makeChain] at h
  split at h
  case h_1 => cases h
  case h_2 hlack =>
      refine Or.inr ⟨hlack, ?_⟩
      split at h
      case h_1 hparents =>
          cases h
          exact Or.inl hparents
      case h_2 middle hparents =>
          split at h
          case h_1 => cases h
          case h_2 hlast =>
              split at h
              · cases h
              · cases h
                exact Or.inr ⟨hparents, hlast⟩
  case h_3 =>
      split at h
      · cases h
      · cases h
        exact Or.inl rfl

theorem keeps_makeChain (tree : FileTree) (paths : List Path) :
    Keeps tree (tree.makeChain paths).2 := by
  refine makeChain_induction (motive := Keeps tree) paths ?_ (Keeps.refl tree)
  intro path _ before later hkept hmake
  obtain ⟨_, _, _, _, _, hnone, rfl⟩ := makeDirectory_eq_ok hmake
  exact hkept.trans (keeps_insert _ hnone)

theorem keeps_makeDirectories (tree : FileTree) (path : Path) :
    Keeps tree (tree.makeDirectories path).2 :=
  keeps_makeChain tree _

end FileTree

end TableIntake.Files
