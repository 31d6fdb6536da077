import TableIntake.Scratch

namespace TableIntake.Scratch

open TableIntake.Files
open TableIntake.Log (Logging)

/-! Pools: several scratch directories in one file tree, each under an identifier. -/

structure Pool where
  tree : FileTree
  guards : List (String × Scratch) := []
  deriving Repr

namespace Pool

def guard? (pool : Pool) (id : String) : Option Scratch :=
  pool.guards.lookup id

def remove (pool : Pool) (id : String) : Logging Pool := do
  match pool.guard? id with
  | none => return pool
  | some scratch =>
      let tree ← scratch.remove pool.tree
      return ⟨tree, pool.guards.filter (·.1 ≠ id)⟩

/-- Makes a directory under the root. The one that the identifier had before is removed as soon
as the new one is there. -/
def create (pool : Pool) (id : String) (root : Path) (tag : String) :
    Logging (Except Error Scratch × Pool) := do
  match Scratch.create root tag pool.tree with
  | (.error e, tree) => return (.error e, { pool with tree })
  | (.ok scratch, tree) =>
      let pool ← Pool.remove { pool with tree } id
      return (.ok scratch, { pool with guards := (id, scratch) :: pool.guards })

def write (pool : Pool) (id name : String) (content : Content) :
    Option (Except Error Path) × Pool :=
  match pool.guard? id with
  | none => (none, pool)
  | some scratch =>
      let (result, tree) := scratch.write name content pool.tree
      (some result, { pool with tree })

end Pool

end TableIntake.Scratch
