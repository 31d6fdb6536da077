import TableIntake.Keyed
import TableIntake.Log.Scope

namespace TableIntake.Log

/-! Sessions: any number of scopes, each open under an identifier. -/

structure Session where
  scopes : List (String × Scope) := []
  deriving Repr

namespace Session

def scope? (session : Session) (id : String) : Option Scope :=
  session.scopes.lookup id

def isOpen (session : Session) (id : String) : Bool :=
  (session.scope? id).isSome

def erase (session : Session) (id : String) : Session :=
  ⟨session.scopes.filter (·.1 ≠ id)⟩

/-- Opens a scope. One that is open under the same identifier is let go for it. -/
def start (session : Session) (id name : String) (fields : List (String × String)) :
    Logging Session := do
  let scope ← Scope.start name fields
  match session.scope? id with
  | some older => older.release
  | none => pure ()
  return ⟨insertKey id scope session.scopes⟩

/-- Ends the scope that is open under the identifier, if one is. -/
def finish (session : Session) (id : String) (outcome : Scope → Logging Unit) :
    Logging Session := do
  match session.scope? id with
  | some scope => outcome scope
  | none => pure ()
  return session.erase id

def complete (session : Session) (id : String) (extra : List (String × String))
    (elapsed : Nat) : Logging Session :=
  session.finish id (·.complete extra elapsed)

def fail (session : Session) (id reason : String) : Logging Session :=
  session.finish id (·.fail reason)

def drop (session : Session) (id : String) : Logging Session :=
  session.finish id Scope.release

def close (session : Session) : Logging Unit :=
  session.scopes.forM fun (_, scope) => scope.release

end Session

/-- What can be asked of a session, and what can happen to the journal meanwhile. -/
inductive Request where
  | start (id name : String) (fields : List (String × String))
  | complete (id : String) (extra : List (String × String)) (elapsed : Nat)
  | fail (id reason : String)
  | drop (id : String)
  /-- An entry that no scope writes. -/
  | note (entry : Entry)
  | limit (threshold : Severity)
  deriving DecidableEq, Repr

namespace Session

def serve (session : Session) : Request → Logging Session
  | .start id name fields => session.start id name fields
  | .complete id extra elapsed => session.complete id extra elapsed
  | .fail id reason => session.fail id reason
  | .drop id => session.drop id
  | .note entry => do
      record entry
      return session
  | .limit threshold => do
      modify fun journal => { journal with threshold }
      return session

def serveAll (requests : List Request) : Logging Session :=
  requests.foldlM serve {}

/-- A whole session: the scopes that are still open in the end are let go. -/
def run (requests : List Request) : Logging Unit := do
  let session ← serveAll requests
  session.close

end Session

end TableIntake.Log
