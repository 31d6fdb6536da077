import TableIntake.Files.Error
import TableIntake.Files.Path

namespace TableIntake.Files

/-! File trees, and the way from a path to a place in them. -/

inductive Node where
  | directory
  | file (bytes : List UInt8)
  deriving DecidableEq, Repr

/-- The names that lead to a place, from the innermost outwards. -/
abbrev Location := List String

structure FileTree where
  nodes : List (Location × Node) := []
  here : Location := []
  deriving DecidableEq, Repr

/-- The count of bytes that a name may have. -/
def nameLimit : Nat := 255

/-- The count of bytes that a path has to stay below. -/
def pathLimit : Nat := 4096

namespace FileTree

/-- The root is always there. -/
def find? (tree : FileTree) (location : Location) : Option Node :=
  if location.isEmpty then some .directory else tree.nodes.lookup location

/-- Nothing, if the location is a directory. -/
def enter (tree : FileTree) (location : Location) : Except Error Unit :=
  match tree.find? location with
  | none => .error .notFound
  | some (.file _) => .error .notDirectory
  | some .directory => .ok ()

def step (location : Location) (piece : String) : Except Error Location :=
  if Path.isIdle piece then .ok location
  else if piece = ".." then .ok location.tail
  else if nameLimit < piece.utf8ByteSize then .error .nameTooLong
  else .ok (piece :: location)

def walk (tree : FileTree) : Location → List String → Except Error Location
  | location, [] => .ok location
  | location, piece :: pieces => do
      tree.enter location
      tree.walk (← step location piece) pieces

def start (tree : FileTree) (path : Path) : Location :=
  if path.absolute then [] else tree.here

/-- What no path may be, whatever it leads to. -/
def checkPath (path : Path) : Except Error Unit :=
  if '\x00' ∈ path.text.toList then .error .nulInPath
  else if pathLimit ≤ path.text.utf8ByteSize then .error .nameTooLong
  else if path.isEmpty then .error .notFound
  else .ok ()

def lookup (tree : FileTree) (path : Path) : Except Error (Location × Node) := do
  checkPath path
  let location ← tree.walk (tree.start path) path.pieces
  match tree.find? location with
  | none => .error .notFound
  | some node => return (location, node)

def split (tree : FileTree) (path : Path) (pieces : List String) :
    Except Error (Location × String) := do
  checkPath path
  match pieces.reverse with
  | [] => return (tree.start path, "")
  | last :: before =>
      let location ← tree.walk (tree.start path) before.reverse
      tree.enter location
      return (location, last)

def insert (tree : FileTree) (location : Location) (node : Node) : FileTree :=
  { tree with nodes := (location, node) :: tree.nodes }

def replace (tree : FileTree) (location : Location) (node : Node) : FileTree :=
  { tree with nodes := tree.nodes.map fun (l, n) => if l = location then (l, node) else (l, n) }

def prune (tree : FileTree) (location : Location) : FileTree :=
  { tree with nodes := tree.nodes.filter fun (l, _) => !location.isSuffixOf l }

theorem find?_insert_self (tree : FileTree) {location : Location} (node : Node)
    (h : location ≠ []) : (tree.insert location node).find? location = some node := by
  simp [find?, insert, h]

theorem find?_insert_of_ne (tree : FileTree) {location other : Location} (node : Node)
    (h : other ≠ location) :
    (tree.insert location node).find? other = tree.find? other := by
  have hother : (other == location) = false := by simpa using h
  simp [find?, insert, List.lookup_cons, hother]

theorem find?_prune_of_suffix (tree : FileTree) {location other : Location}
    (hne : other ≠ []) (h : location <:+ other) :
    (tree.prune location).find? other = none := by
  simp only [find?, prune, List.isEmpty_iff, hne, if_false]
  rw [List.lookup_eq_none_iff]
  intro entry hentry
  have hkept := (List.mem_filter.mp hentry).2
  have hne' : other ≠ entry.1 := by
    rintro rfl
    rw [List.isSuffixOf_iff_suffix.mpr h] at hkept
    cases hkept
  simpa using hne'

private theorem lookup_filter {nodes : List (Location × Node)} {keep : Location → Bool}
    {location : Location} (h : keep location = true) :
    (nodes.filter fun entry => keep entry.1).lookup location = nodes.lookup location := by
  induction nodes with
  | nil => rfl
  | cons entry nodes ih =>
      obtain ⟨l, node⟩ := entry
      by_cases hl : location = l
      · subst hl
        simp [h]
      · have hne : (location == l) = false := by simpa using hl
        by_cases hk : keep l = true
        · simp [hk, List.lookup_cons, hne, ih]
        · simp [hk, List.lookup_cons, hne, ih]

theorem find?_prune_of_not_suffix (tree : FileTree) {location other : Location}
    (h : ¬ location <:+ other) :
    (tree.prune location).find? other = tree.find? other := by
  unfold find? prune
  split
  · rfl
  · have hkeep : (!location.isSuffixOf other) = true := by
      simpa [← List.isSuffixOf_iff_suffix] using h
    exact @lookup_filter _ (fun l => !location.isSuffixOf l) _ hkeep

end FileTree

end TableIntake.Files
