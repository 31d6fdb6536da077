import TableIntake.Batch.Table

namespace TableIntake.Batch

open TableIntake.Files
open TableIntake.Json (Value)
open TableIntake.Log (Logging)

/-! Reports: what became of each pair. -/

inductive Outcome where
  | validated (findings : List Finding)
  | failed (failure : PairFailure)
  deriving Repr

structure Report where
  pair : String
  variant : Option Variant
  outcome : Outcome
  deriving Repr

namespace Report

def isFailed (report : Report) : Bool :=
  match report.outcome with
  | .validated _ => false
  | .failed _ => true

def toJson (report : Report) : Value :=
  let outcome :=
    match report.outcome with
    | .validated findings => ("errors", Finding.listToJson findings)
    | .failed failure => ("failure", failure.toJson)
  let variant :=
    match report.variant with
    | none => Value.null
    | some v => .string v.name
  .object [("pairId", .string report.pair), ("variant", variant), outcome]

end Report

namespace Extracted

def read (extracted : Extracted) (tree : FileTree) : Except PairFailure String :=
  match tree.readText extracted.path with
  | .ok text => .ok text
  | .error e => .error (.unreadable extracted.entry e.message)

end Extracted

namespace Pending

def load (pending : Pending) (variant : Except UnknownVariant (Option Variant))
    (tree : FileTree) : Except PairFailure (Variant × String × String) :=
  match pending.failure, variant, pending.grammar, pending.data with
  | some failure, _, _, _ => .error failure
  | none, .error unknown, _, _ => .error (.unknownVariant unknown)
  | none, .ok none, _, _ => .error (.misnamed pending.pair "a variant directory")
  | none, .ok (some _), none, _ => .error (.missingGrammar pending.pair)
  | none, .ok (some _), some _, none => .error (.missingData pending.pair)
  | none, .ok (some variant), some grammar, some data => do
      return (variant, ← grammar.read tree, ← data.read tree)

def parseVariant (pending : Pending) :
    Logging (Except UnknownVariant (Option Variant)) :=
  match pending.variant with
  | none => return .ok none
  | some text => return (← Variant.parse text).map some

def report (pending : Pending) (tree : FileTree) : Logging Report := do
  let variant ← pending.parseVariant
  let known := variant.toOption.bind id
  match pending.load variant tree with
  | .ok (v, grammar, data) =>
      let findings ← v.checkData grammar data
      Log.emit .bulkPairValidated
        [("pair", pending.pair), ("findings", toString findings.length)]
      return ⟨pending.pair, known, .validated findings⟩
  | .error failure =>
      Log.emit .bulkPairFailed
        [("pair", pending.pair), ("code", failure.code), ("error", failure.message)]
      return ⟨pending.pair, known, .failed failure⟩

end Pending

end TableIntake.Batch
