import TableIntake.Batch.Convention
import TableIntake.Batch.Failure

namespace TableIntake.Batch

open TableIntake.Files

/-! Pairs as they are collected from an archive. -/

structure Extracted where
  entry : String
  path : Path
  deriving DecidableEq, Repr

structure Pending where
  pair : String
  /-- The variant as the first entry of the pair names it. -/
  variant : Option String
  grammar : Option Extracted := none
  data : Option Extracted := none
  failure : Option PairFailure := none
  deriving DecidableEq, Repr

namespace Pending

def get? (pending : Pending) : Half → Option Extracted
  | .grammar => pending.grammar
  | .data => pending.data

def store (pending : Pending) (half : Half) (extracted : Extracted) : Pending :=
  match half with
  | .grammar => { pending with grammar := some extracted }
  | .data => { pending with data := some extracted }

/-- The first failure stays. -/
def fail (pending : Pending) (failure : PairFailure) : Pending :=
  { pending with failure := pending.failure <|> some failure }

end Pending

/-- Pairs in the order in which they first appear. -/
abbrev Table := List Pending

end TableIntake.Batch
