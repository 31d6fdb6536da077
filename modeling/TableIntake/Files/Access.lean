import TableIntake.Files.Tree
import TableIntake.Text.Utf8

namespace TableIntake.Files

open TableIntake.Text

/-! Reading and changing file trees. What fails changes nothing. -/

namespace FileTree

/-! Looking. -/

def pathExists (tree : FileTree) (path : Path) : Bool :=
  (tree.lookup path).isOk

def isDirectory (tree : FileTree) (path : Path) : Bool :=
  match tree.lookup path with
  | .ok (_, .directory) => true
  | _ => false

def readFile (tree : FileTree) (path : Path) : Except Error (List UInt8) := do
  match (← tree.lookup path).2 with
  | .directory => .error .isDirectory
  | .file bytes => return bytes

def readText (tree : FileTree) (path : Path) : Except Error String := do
  match ofUtf8? (← tree.readFile path) with
  | none => .error .notText
  | some text => return text

/-! Changing. Slashes at the end of the path of a directory do not matter. -/

def withoutSlashes (path : Path) : List String :=
  (path.pieces.reverse.dropWhile (· = "")).reverse

/-- A name that stands for a new place in its directory. -/
def isName (piece : String) : Bool :=
  !(Path.isIdle piece || piece = "..")

def makeDirectory (tree : FileTree) (path : Path) : Except Error FileTree := do
  let (location, name) ← tree.split path (withoutSlashes path)
  if !isName name then .error .alreadyExists
  else
    let location ← step location name
    match tree.find? location with
    | some _ => .error .alreadyExists
    | none => return tree.insert location .directory

/-- Makes a file of the bytes, or fills the file that is there with them. -/
def writeFile (tree : FileTree) (path : Path) (bytes : List UInt8) :
    Except Error FileTree := do
  let (location, name) ← tree.split path path.pieces
  if !isName name then .error .isDirectory
  else
    let location ← step location name
    match tree.find? location with
    | some .directory => .error .isDirectory
    | some (.file _) => return tree.replace location (.file bytes)
    | none => return tree.insert location (.file bytes)

def removeDirectory (tree : FileTree) (path : Path) : Except Error FileTree := do
  let (location, name) ← tree.split path (withoutSlashes path)
  if name = "" then .error .busy
  else if name = "." then .error .badArgument
  else if name = ".." then .error .notEmpty
  else
    let location ← step location name
    match tree.find? location with
    | none => .error .notFound
    | some (.file _) => .error .notDirectory
    | some .directory =>
        if tree.nodes.any fun (l, _) => l.tail = location && !l.isEmpty then .error .notEmpty
        else return tree.prune location

def removeAll (tree : FileTree) (path : Path) : Except Error FileTree := do
  match ← tree.lookup path with
  | (_, .file _) => .error .notDirectory
  | (location, .directory) => return tree.prune location

def makeChain (tree : FileTree) : List Path → Except Error Unit × FileTree
  | [] => (.ok (), tree)
  | path :: parents =>
      match tree.makeDirectory path with
      | .ok tree => (.ok (), tree)
      | .error .notFound =>
          match tree.makeChain parents with
          | (.error e, tree) => (.error e, tree)
          | (.ok (), tree) =>
              match tree.makeDirectory path with
              | .ok tree => (.ok (), tree)
              | .error e => (if tree.isDirectory path then .ok () else .error e, tree)
      | .error e => (if tree.isDirectory path then .ok () else .error e, tree)

/-- Makes a directory and those above it that are missing. What it has made before it fails
stays. -/
def makeDirectories (tree : FileTree) (path : Path) : Except Error Unit × FileTree :=
  tree.makeChain (path.ancestors.takeWhile (!·.isEmpty))

end FileTree

end TableIntake.Files
