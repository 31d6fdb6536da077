import TableIntake.Log.Journal

namespace TableIntake.Log

/-! Scopes: work that logs its beginning and its outcome. -/

structure Scope where
  name : String
  fields : List (String × String)
  /-- It has an outcome. -/
  completed : Bool := false
  deriving DecidableEq, Repr

namespace Scope

def start (name : String) (fields : List (String × String)) : Logging Scope := do
  record ⟨.info, name ++ "_BEGIN", fields⟩
  return { name, fields }

/-- Every scope is let go in the end. One that has no outcome by then is logged as incomplete. -/
def release (scope : Scope) : Logging Unit :=
  if scope.completed then pure ()
  else
    record ⟨.warn, scope.name ++ "_INCOMPLETE",
      [("reason", "scope dropped without completion")]⟩

def complete (scope : Scope) (extra : List (String × String)) (elapsed : Nat) :
    Logging Unit := do
  let scope := { scope with completed := true }
  record ⟨.info, scope.name ++ "_COMPLETE",
    scope.fields ++ extra ++ [("elapsed_ms", toString elapsed)]⟩
  scope.release

def fail (scope : Scope) (reason : String) : Logging Unit := do
  let scope := { scope with completed := true }
  record ⟨.error, scope.name ++ "_FAILED", scope.fields ++ [("reason", reason)]⟩
  scope.release

end Scope

end TableIntake.Log
