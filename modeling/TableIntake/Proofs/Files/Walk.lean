import TableIntake.Files.Access
import TableIntake.Proofs.Outcomes

namespace TableIntake.Files

/-! Walks: where pieces lead, and what has to be there for it. -/

namespace FileTree

/-- Where a piece leads, if nothing is in its way. -/
def hop (location : Location) (piece : String) : Location :=
  if Path.isIdle piece then location
  else if piece = ".." then location.tail
  else piece :: location

def place (location : Location) (pieces : List String) : Location :=
  pieces.foldl hop location

@[simp] theorem place_nil (location : Location) : place location [] = location := rfl

@[simp] theorem place_cons (location : Location) (piece : String) (pieces : List String) :
    place location (piece :: pieces) = place (hop location piece) pieces := rfl

@[simp] theorem place_append (location : Location) (before after : List String) :
    place location (before ++ after) = place (place location before) after :=
  List.foldl_append

theorem not_idle_of_isName {piece : String} (h : isName piece = true) :
    Path.isIdle piece = false ∧ piece ≠ ".." := by
  simpa [isName] using h

theorem hop_of_idle {piece : String} (h : Path.isIdle piece = true) (location : Location) :
    hop location piece = location :=
  if_pos h

theorem hop_of_isName {piece : String} (h : isName piece = true) (location : Location) :
    hop location piece = piece :: location := by
  obtain ⟨hidle, hparent⟩ := not_idle_of_isName h
  simp [hop, hidle, hparent]

theorem place_of_idle {pieces : List String} (h : ∀ piece ∈ pieces, Path.isIdle piece = true)
    (location : Location) : place location pieces = location := by
  induction pieces with
  | nil => rfl
  | cons piece pieces ih =>
      rw [place_cons, hop_of_idle (h piece List.mem_cons_self)]
      exact ih fun other hother => h other (List.mem_cons_of_mem _ hother)

theorem place_of_isName {pieces : List String} (h : ∀ piece ∈ pieces, isName piece = true)
    (location : Location) : place location pieces = pieces.reverse ++ location := by
  induction pieces generalizing location with
  | nil => rfl
  | cons piece pieces ih =>
      rw [place_cons, hop_of_isName (h piece List.mem_cons_self),
        ih fun other hother => h other (List.mem_cons_of_mem _ hother)]
      simp

theorem suffix_hop {piece : String} (h : piece ≠ "..") (location : Location) :
    location <:+ hop location piece := by
  unfold hop
  split
  · exact List.suffix_rfl
  · exact List.suffix_cons piece location

/-- Without references to parents a walk only leads downwards. -/
theorem suffix_place {pieces : List String} (h : ".." ∉ pieces) (location : Location) :
    location <:+ place location pieces := by
  induction pieces generalizing location with
  | nil => exact List.suffix_rfl
  | cons piece pieces ih =>
      have hpiece : piece ≠ ".." := fun heq => h (heq ▸ List.mem_cons_self)
      have hrest : ".." ∉ pieces := fun hmem => h (List.mem_cons_of_mem _ hmem)
      exact (suffix_hop hpiece location).trans (ih hrest _)

def Short (piece : String) : Prop :=
  Path.isIdle piece = true ∨ piece = ".." ∨ piece.utf8ByteSize ≤ nameLimit

instance (piece : String) : Decidable (Short piece) :=
  inferInstanceAs (Decidable (_ ∨ _ ∨ _))

theorem short_of_idle {piece : String} (h : Path.isIdle piece = true) : Short piece :=
  Or.inl h

theorem step_eq_ok {location next : Location} {piece : String} :
    step location piece = .ok next ↔ Short piece ∧ hop location piece = next := by
  unfold step hop Short
  by_cases hidle : Path.isIdle piece = true
  · simp [hidle]
  · by_cases hparent : piece = ".."
    · subst hparent
      simp [hidle]
    · by_cases hlong : nameLimit < piece.utf8ByteSize
      · simp [hidle, hparent, hlong, Nat.not_le.mpr hlong]
      · simp [hidle, hparent, hlong, Nat.le_of_not_lt hlong]

theorem enter_eq_ok {tree : FileTree} {location : Location} {u : Unit} :
    tree.enter location = .ok u ↔ tree.find? location = some .directory := by
  unfold enter
  cases tree.find? location with
  | none => exact ⟨nofun, nofun⟩
  | some node =>
      cases node with
      | file bytes => exact ⟨nofun, nofun⟩
      | directory => exact ⟨fun _ => rfl, fun _ => rfl⟩

/-- Every piece but the last place is taken from a directory. -/
def Open (tree : FileTree) : Location → List String → Prop
  | _, [] => True
  | location, piece :: pieces =>
      tree.find? location = some .directory ∧ Short piece ∧ tree.Open (hop location piece) pieces

theorem walk_eq_ok {tree : FileTree} {location last : Location} {pieces : List String} :
    tree.walk location pieces = .ok last ↔
      tree.Open location pieces ∧ place location pieces = last := by
  induction pieces generalizing location with
  | nil => simp [walk, Open]
  | cons piece pieces ih =>
      simp only [walk, bind_eq_ok, enter_eq_ok, step_eq_ok, ih, Open, place_cons]
      constructor
      · rintro ⟨_, henter, _, ⟨hshort, rfl⟩, hopen, hlast⟩
        exact ⟨⟨henter, hshort, hopen⟩, hlast⟩
      · rintro ⟨⟨henter, hshort, hopen⟩, hlast⟩
        exact ⟨(), henter, _, ⟨hshort, rfl⟩, hopen, hlast⟩

theorem open_append {tree : FileTree} {location : Location} {before after : List String} :
    tree.Open location (before ++ after) ↔
      tree.Open location before ∧ tree.Open (place location before) after := by
  induction before generalizing location with
  | nil => simp [Open]
  | cons piece before ih => simp [Open, ih, and_assoc]

theorem open_singleton {tree : FileTree} {location : Location} {piece : String} :
    tree.Open location [piece] ↔ tree.find? location = some .directory ∧ Short piece := by
  simp [Open]

theorem Open.mono {tree later : FileTree}
    (hdir : ∀ l, tree.find? l = some .directory → later.find? l = some .directory)
    {location : Location} {pieces : List String} (h : tree.Open location pieces) :
    later.Open location pieces := by
  induction pieces generalizing location with
  | nil => trivial
  | cons piece pieces ih => exact ⟨hdir _ h.1, h.2.1, ih h.2.2⟩

/-- Every place that a piece is taken from has the property. -/
def Passes (P : Location → Prop) : Location → List String → Prop
  | _, [] => True
  | location, piece :: pieces => P location ∧ Passes P (hop location piece) pieces

theorem Passes.mono {P Q : Location → Prop} (himp : ∀ l, P l → Q l) {location : Location}
    {pieces : List String} (h : Passes P location pieces) : Passes Q location pieces := by
  induction pieces generalizing location with
  | nil => trivial
  | cons piece pieces ih => exact ⟨himp location h.1, ih h.2⟩

theorem passes_append {P : Location → Prop} {location : Location} {before after : List String} :
    Passes P location (before ++ after) ↔
      Passes P location before ∧ Passes P (place location before) after := by
  induction before generalizing location with
  | nil => simp [Passes]
  | cons piece before ih => simp [Passes, ih, and_assoc]

theorem passes_of_idle {P : Location → Prop} {location : Location} {pieces : List String}
    (hidle : ∀ piece ∈ pieces, Path.isIdle piece = true) (h : P location) :
    Passes P location pieces := by
  induction pieces with
  | nil => trivial
  | cons piece pieces ih =>
      refine ⟨h, ?_⟩
      rw [hop_of_idle (hidle piece List.mem_cons_self)]
      exact ih fun other hother => hidle other (List.mem_cons_of_mem _ hother)

theorem open_of_passes {tree : FileTree} {location : Location} {pieces : List String}
    (hpasses : Passes (fun l => tree.find? l = some .directory) location pieces)
    (hshort : ∀ piece ∈ pieces, Short piece) : tree.Open location pieces := by
  induction pieces generalizing location with
  | nil => trivial
  | cons piece pieces ih =>
      obtain ⟨hpiece, hrest⟩ := List.forall_mem_cons.mp hshort
      exact ⟨hpasses.1, hpiece, ih hpasses.2 hrest⟩

theorem open_of_idle {tree : FileTree} {location : Location} {pieces : List String}
    (hidle : ∀ piece ∈ pieces, Path.isIdle piece = true)
    (h : tree.find? location = some .directory) : tree.Open location pieces :=
  open_of_passes (passes_of_idle hidle h) fun piece hpiece => short_of_idle (hidle piece hpiece)

theorem Open.passes {tree : FileTree} {location : Location} {pieces : List String}
    (h : tree.Open location pieces) :
    Passes (fun l => tree.find? l = some .directory) location pieces := by
  induction pieces generalizing location with
  | nil => trivial
  | cons piece pieces ih => exact ⟨h.1, ih h.2.2⟩

/-- A walk can be taken in any tree that has the directories it passes. -/
theorem Open.of_passes {tree later : FileTree} {P : Location → Prop} {location : Location}
    {pieces : List String} (h : tree.Open location pieces) (hpasses : Passes P location pieces)
    (hdir : ∀ l, P l → tree.find? l = some .directory → later.find? l = some .directory) :
    later.Open location pieces := by
  induction pieces generalizing location with
  | nil => trivial
  | cons piece pieces ih =>
      exact ⟨hdir location hpasses.1 h.1, h.2.1, ih h.2.2 hpasses.2⟩

theorem Open.short {tree : FileTree} {location : Location} {pieces : List String}
    (h : tree.Open location pieces) : ∀ piece ∈ pieces, Short piece := by
  induction pieces generalizing location with
  | nil => exact fun _ hpiece => absurd hpiece List.not_mem_nil
  | cons piece pieces ih => exact List.forall_mem_cons.mpr ⟨h.2.1, ih h.2.2⟩

/-! Paths. -/

/-- Where a path leads, if nothing is in its way. -/
def goal (tree : FileTree) (path : Path) : Location :=
  place (tree.start path) path.pieces

theorem start_of_here {tree later : FileTree} (h : later.here = tree.here) (path : Path) :
    later.start path = tree.start path := by
  unfold start
  rw [h]

theorem goal_of_here {tree later : FileTree} (h : later.here = tree.here) (path : Path) :
    later.goal path = tree.goal path := by
  unfold goal
  rw [start_of_here h]

theorem lookup_eq_ok {tree : FileTree} {path : Path} {location : Location} {node : Node} :
    tree.lookup path = .ok (location, node) ↔
      checkPath path = .ok () ∧ tree.Open (tree.start path) path.pieces ∧
        tree.goal path = location ∧ tree.find? location = some node := by
  simp only [lookup, bind_eq_ok, walk_eq_ok, goal]
  constructor
  · rintro ⟨_, hcheck, last, ⟨hopen, rfl⟩, hfind⟩
    cases hnode : tree.find? (place (tree.start path) path.pieces) with
    | none => simp [hnode] at hfind
    | some other =>
        simp only [hnode] at hfind
        cases hfind
        exact ⟨hcheck, hopen, rfl, hnode⟩
  · rintro ⟨hcheck, hopen, rfl, hnode⟩
    exact ⟨(), hcheck, _, ⟨hopen, rfl⟩, by rw [hnode]; rfl⟩

theorem goal_of_lookup {tree : FileTree} {path : Path} {location : Location} {node : Node}
    (h : tree.lookup path = .ok (location, node)) : tree.goal path = location :=
  (lookup_eq_ok.mp h).2.2.1

theorem find?_of_lookup {tree : FileTree} {path : Path} {location : Location} {node : Node}
    (h : tree.lookup path = .ok (location, node)) : tree.find? location = some node :=
  (lookup_eq_ok.mp h).2.2.2

/-- A path leads to the same place in any tree that has what it passes and what is there. -/
theorem lookup_of_passes {tree later : FileTree} {path : Path} {node : Node}
    {P : Location → Prop} (h : tree.lookup path = .ok (tree.goal path, node))
    (hpasses : Passes P (tree.start path) path.pieces) (hhere : later.here = tree.here)
    (hdir : ∀ l, P l → tree.find? l = some .directory → later.find? l = some .directory)
    (hnode : later.find? (tree.goal path) = some node) :
    later.lookup path = .ok (later.goal path, node) := by
  obtain ⟨hcheck, hopen, -, -⟩ := lookup_eq_ok.mp h
  refine lookup_eq_ok.mpr ⟨hcheck, ?_, rfl, ?_⟩
  · rw [start_of_here hhere]
    exact hopen.of_passes hpasses hdir
  · rw [goal_of_here hhere]
    exact hnode

theorem pathExists_eq_true {tree : FileTree} {path : Path} :
    tree.pathExists path = true ↔
      ∃ node, tree.lookup path = .ok (tree.goal path, node) := by
  unfold pathExists
  cases hlookup : tree.lookup path with
  | error e => exact ⟨nofun, nofun⟩
  | ok found =>
      obtain ⟨location, node⟩ := found
      have hgoal := goal_of_lookup hlookup
      subst hgoal
      exact ⟨fun _ => ⟨node, rfl⟩, fun _ => rfl⟩

theorem pathExists_eq_false {tree : FileTree} {path : Path}
    (h : tree.find? (tree.goal path) = none) : tree.pathExists path = false := by
  cases hexists : tree.pathExists path with
  | false => rfl
  | true =>
      obtain ⟨node, hlookup⟩ := pathExists_eq_true.mp hexists
      cases h.symm.trans (find?_of_lookup hlookup)

theorem isDirectory_eq_true {tree : FileTree} {path : Path} :
    tree.isDirectory path = true ↔ tree.lookup path = .ok (tree.goal path, .directory) := by
  unfold isDirectory
  cases hlookup : tree.lookup path with
  | error e => exact ⟨nofun, nofun⟩
  | ok found =>
      obtain ⟨location, node⟩ := found
      have hgoal := goal_of_lookup hlookup
      subst hgoal
      cases node with
      | directory => exact ⟨fun _ => rfl, fun _ => rfl⟩
      | file bytes => exact ⟨nofun, nofun⟩

/-- The pieces before the last one can be walked, and lead to a directory. -/
theorem split_eq_ok {tree : FileTree} {path : Path} {before : List String} {last name : String}
    {location : Location} :
    tree.split path (before ++ [last]) = .ok (location, name) ↔
      checkPath path = .ok () ∧ tree.Open (tree.start path) before ∧
        tree.find? (place (tree.start path) before) = some .directory ∧
        place (tree.start path) before = location ∧ last = name := by
  simp only [split, List.reverse_append, List.reverse_cons, List.reverse_nil, List.nil_append,
    List.cons_append, List.reverse_reverse, bind_eq_ok, walk_eq_ok, enter_eq_ok]
  constructor
  · rintro ⟨_, hcheck, directory, ⟨hopen, rfl⟩, _, henter, hresult⟩
    cases hresult
    exact ⟨hcheck, hopen, henter, rfl, rfl⟩
  · rintro ⟨hcheck, hopen, henter, rfl, rfl⟩
    exact ⟨(), hcheck, _, ⟨hopen, rfl⟩, (), henter, rfl⟩

theorem split_nil_eq_ok {tree : FileTree} {path : Path} {name : String} {location : Location}
    (h : tree.split path [] = .ok (location, name)) : name = "" := by
  simp only [split, List.reverse_nil, bind_eq_ok] at h
  obtain ⟨_, -, hresult⟩ := h
  cases hresult
  rfl

end FileTree

end TableIntake.Files
