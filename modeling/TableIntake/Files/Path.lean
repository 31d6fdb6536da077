import TableIntake.Text.Split

namespace TableIntake.Files

open TableIntake.Text

/-! Paths as they are written: pieces between slashes, some of which name nothing. -/

structure Path where
  absolute : Bool
  pieces : List String
  deriving DecidableEq, Repr

namespace Path

def ofPieces (absolute : Bool) : List Char → Path
  | [] => ⟨absolute, []⟩
  | cs => ⟨absolute, (split '/' cs).map String.ofList⟩

def ofText (text : String) : Path :=
  match text.toList with
  | '/' :: cs => ofPieces true cs
  | cs => ofPieces false cs

def text (path : Path) : String :=
  (if path.absolute then "/" else "") ++ "/".intercalate path.pieces

theorem text_ofPieces (absolute : Bool) (cs : List Char) :
    (ofPieces absolute cs).text = (if absolute then "/" else "") ++ String.ofList cs := by
  unfold ofPieces
  split
  case h_1 => rfl
  case h_2 =>
      apply String.toList_inj.mp
      simp [text, Function.comp_def, intercalate_split]

/-- A path says what it was made of. -/
theorem text_ofText (text : String) : (ofText text).text = text := by
  unfold ofText
  split
  case h_1 cs heq =>
      apply String.toList_inj.mp
      simp [text_ofPieces, heq]
  case h_2 => simp [text_ofPieces]

def isEmpty (path : Path) : Bool :=
  !path.absolute && path.pieces.isEmpty

def isIdle (piece : String) : Bool :=
  piece = "" || piece = "."

/-- The pieces without the idle ones at the end. A path that begins at the current directory
keeps saying so. -/
def core (path : Path) : List String :=
  match (path.pieces.reverse.dropWhile isIdle).reverse, path.pieces with
  | [], first :: _ => if !path.absolute && first = "." then [first] else []
  | pieces, _ => pieces

/-- The pieces that count when paths are compared. -/
def components (path : Path) : List String :=
  match path.pieces with
  | [] => []
  | first :: rest =>
      let rest := rest.filter (!isIdle ·)
      if !path.absolute && first = "." || !isIdle first then first :: rest else rest

def same (a b : Path) : Bool :=
  a.absolute == b.absolute && a.components == b.components

def parent? (path : Path) : Option Path :=
  match path.core with
  | [] => none
  | pieces => some { path with pieces := core { path with pieces := pieces.dropLast } }

def chain : Nat → Path → List Path
  | 0, path => [path]
  | fuel + 1, path =>
      match path.parent? with
      | none => [path]
      | some parent => path :: chain fuel parent

def ancestors (path : Path) : List Path :=
  chain path.pieces.length path

def child (path : Path) (name : String) : Path :=
  match path.pieces.reverse with
  | "" :: pieces => { path with pieces := (name :: pieces).reverse }
  | pieces => { path with pieces := (name :: pieces).reverse }

end Path

end TableIntake.Files
