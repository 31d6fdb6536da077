import TableIntake.Files.Access
import TableIntake.Log.Journal

namespace TableIntake

open TableIntake.Files
open TableIntake.Log (Logging)
open TableIntake.Text

/-! Scratch directories: each batch unpacks into one of its own. -/

/-- What a file is filled with. Behind the bytes reading it can fail. -/
structure Content where
  bytes : List UInt8
  fault : Option String := none
  deriving DecidableEq, Repr

structure Scratch where
  path : Path
  /-- The directories above it that were missing, deepest first. -/
  made : List Path
  deriving DecidableEq, Repr

namespace Scratch

def namePrefix : String := "ingestguard-"

def location (root : Path) (tag : String) : Path :=
  root.child (namePrefix ++ tag)

def create (root : Path) (tag : String) (tree : FileTree) :
    Except Error Scratch × FileTree :=
  let path := location root tag
  let made := root.ancestors.takeWhile fun dir => !dir.isEmpty && !tree.pathExists dir
  match tree.makeDirectories path with
  | (.error e, tree) => (.error e, tree)
  | (.ok (), tree) => (.ok ⟨path, made⟩, tree)

/-- The pieces of an entry name that name something. -/
def entryPieces (name : String) : Except Error (List String) :=
  let pieces := ((split '/' name.toList).map String.ofList).filter fun piece =>
    !Path.isIdle piece
  if ".." ∈ pieces then .error .escapes
  else if pieces.isEmpty then .error .emptyName
  else .ok pieces

def write (scratch : Scratch) (name : String) (content : Content) (tree : FileTree) :
    Except Error Path × FileTree :=
  match entryPieces name with
  | .error e => (.error e, tree)
  | .ok pieces =>
      let path := pieces.foldl Path.child scratch.path
      match tree.makeDirectories (pieces.dropLast.foldl Path.child scratch.path) with
      | (.error e, tree) => (.error e, tree)
      | (.ok (), tree) =>
          match tree.writeFile path content.bytes, content.fault with
          | .error e, _ => (.error e, tree)
          | .ok tree, some reason => (.error (.fault reason), tree)
          | .ok tree, none => (.ok path, tree)

/-- Removes directories up to the first one that is still in use. -/
def retreat (tree : FileTree) : List Path → FileTree
  | [] => tree
  | dir :: dirs =>
      match tree.removeDirectory dir with
      | .error _ => tree
      | .ok tree => retreat tree dirs

def remove (scratch : Scratch) (tree : FileTree) : Logging FileTree :=
  if tree.pathExists scratch.path then
    match tree.removeAll scratch.path with
    | .error e => do
        Log.emit .scratchCleanupFailed
          [("path", scratch.path.text), ("error", e.message)]
        return tree
    | .ok tree => return retreat tree scratch.made
  else return retreat tree scratch.made

end Scratch

end TableIntake
