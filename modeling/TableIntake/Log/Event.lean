import TableIntake.Log.Severity

namespace TableIntake.Log

/-! The events of a check or a batch. -/

inductive Event where
  | configLoaded
  | grammarChecked
  | dataChecked
  | dispatchRejected
  | bulkStart
  | bulkPairValidated
  | bulkPairFailed
  | bulkComplete
  | bulkAborted
  | scratchCleanupFailed
  deriving DecidableEq, Repr

namespace Event

def label : Event → String
  | configLoaded => "CONFIG_LOADED"
  | grammarChecked => "GRAMMAR_CHECK"
  | dataChecked => "DATA_CHECK"
  | dispatchRejected => "DISPATCH_REJECTED"
  | bulkStart => "BULK_BEGIN"
  | bulkPairValidated => "BULK_PAIR"
  | bulkPairFailed => "BULK_PAIR_FAILED"
  | bulkComplete => "BULK_COMPLETE"
  | bulkAborted => "BULK_ABORTED"
  | scratchCleanupFailed => "SCRATCH_CLEANUP_FAILED"

def severity : Event → Severity
  | grammarChecked => .trace
  | dataChecked => .trace
  | bulkPairValidated => .trace
  | configLoaded => .info
  | bulkStart => .info
  | bulkComplete => .info
  | dispatchRejected => .warn
  | bulkPairFailed => .warn
  | scratchCleanupFailed => .warn
  | bulkAborted => .error

end Event

end TableIntake.Log
