import TableIntake.Command.Run
import TableIntake.Command.Usage
import TableIntake.Scratch.Tag

/-! The program: it looks at the files that a command names, and prints what the command says. -/

namespace TableIntake.Main

open TableIntake.Command
open TableIntake.Files

def look (location : Location) : IO (Option Node) := do
  try
    let bytes ← IO.FS.readBinFile ("/" ++ "/".intercalate location.reverse)
    return some (.file bytes.toList)
  catch
    | .inappropriateType .. => return some .directory
    | _ => return none

def observe (tree : FileTree) (location : Location) : IO FileTree := do
  if (tree.find? location).isSome then return tree
  match ← look location with
  | none => return tree
  | some node => return tree.insert location node

def follow (tree : FileTree) (location : Location) : List String → IO FileTree
  | [] => return tree
  | piece :: pieces =>
      match FileTree.step location piece with
      | .error _ => return tree
      | .ok next => do
          let tree ← observe tree next
          match tree.find? next with
          | some .directory => follow tree next pieces
          | _ => return tree

def visit (tree : FileTree) (path : Path) : IO FileTree :=
  follow tree (tree.start path) path.pieces

def survey (paths : List Path) : IO FileTree := do
  let here := Path.ofText (← IO.currentDir).toString
  let tree : FileTree := { here := here.pieces.reverse }
  (here :: paths).foldlM visit tree

def runCommand (command : Command) : IO UInt32 := do
  let start ← IO.monoMsNow
  let temporary := Path.ofText ((← IO.getEnv "TMPDIR").getD "/tmp")
  let tree ← survey command.paths
  let scratch := match Config.resolve temporary tree command.configPath with
    | .ok config => [config.scratchDir]
    | .error _ => []
  let tree ← scratch.foldlM visit tree
  let tag := Scratch.tagOf (← IO.getRandomBytes 16).toList
  let elapsed := (← IO.monoMsNow) - start
  let ((result, _), journal) := (command.execute ⟨temporary, ⟨tag, elapsed⟩⟩ tree).run {}
  let errors ← IO.getStderr
  journal.lines.forM errors.putStr
  IO.print (response result)
  match result with
  | .ok _ => return 0
  | .error e =>
      errors.putStrLn e.describe
      return 1

end TableIntake.Main

def main (args : List String) : IO UInt32 := do
  match TableIntake.Command.Arguments.read args with
  | .ok command => TableIntake.Main.runCommand command
  | .error e =>
      let output ← if e.isRequest then IO.getStdout else IO.getStderr
      output.putStr e.text
      return e.exitCode
