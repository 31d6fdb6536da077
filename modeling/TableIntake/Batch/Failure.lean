import TableIntake.Archive.Entry
import TableIntake.Variant

namespace TableIntake.Batch

open TableIntake.Files
open TableIntake.Json (Value)

/-! What can go wrong with a pair, and what with a whole batch. -/

inductive PairFailure where
  | missingGrammar (pair : String)
  | missingData (pair : String)
  | unreadable (entry reason : String)
  | misnamed (entry expected : String)
  | duplicate (entry : String)
  | unknownVariant (unknown : UnknownVariant)
  deriving DecidableEq, Repr

namespace PairFailure

def code : PairFailure → String
  | missingGrammar _ => "INGEST_PAIR_MISSING_GRAMMAR"
  | missingData _ => "INGEST_PAIR_MISSING_DATA"
  | unreadable _ _ => "INGEST_PAIR_UNREADABLE_ENTRY"
  | misnamed _ _ => "INGEST_PAIR_NAMING_MISMATCH"
  | duplicate _ => "INGEST_PAIR_DUPLICATE_ENTRY"
  | unknownVariant _ => "INGEST_PAIR_UNKNOWN_VARIANT"

def message : PairFailure → String
  | missingGrammar pair => s!"Pair '{pair}' has a data file but no grammar file"
  | missingData pair => s!"Pair '{pair}' has a grammar file but no data file"
  | unreadable entry reason => s!"Entry '{entry}' could not be read: {reason}"
  | misnamed entry expected =>
      s!"Entry '{entry}' does not follow the naming convention: {expected}"
  | duplicate entry => s!"Entry '{entry}' appears more than once"
  | unknownVariant unknown => unknown.message

def toJson (failure : PairFailure) : Value :=
  .object [("code", .string failure.code), ("message", .string failure.message)]

end PairFailure

inductive Failure where
  | cannotOpen (archive : Path) (cause : Error)
  | cannotRead (archive : Path) (cause : Archive.Fault)
  | noScratch (scratch : Path) (cause : Error)
  deriving DecidableEq, Repr

namespace Failure

def code : Failure → String
  | cannotOpen _ _ => "INGEST_ARCHIVE_OPEN"
  | cannotRead _ _ => "INGEST_ARCHIVE_READ"
  | noScratch _ _ => "INGEST_ARCHIVE_SCRATCH"

def message : Failure → String
  | cannotOpen archive cause => s!"Failed to open archive {archive.text}: {cause.message}"
  | cannotRead archive cause => s!"Failed to read archive {archive.text}: {cause.message}"
  | noScratch scratch cause =>
      s!"Failed to allocate scratch directory {scratch.text}: {cause.message}"

end Failure

end TableIntake.Batch
