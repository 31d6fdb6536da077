import TableIntake.Log.Entry
import TableIntake.Log.Event

namespace TableIntake.Log

/-! The journal: entries below its threshold are not kept. -/

structure Journal where
  threshold : Severity := .info
  entries : List Entry := []
  deriving DecidableEq, Repr

namespace Journal

def enabled (journal : Journal) (severity : Severity) : Bool :=
  decide (journal.threshold ≤ severity)

def record (journal : Journal) (entry : Entry) : Journal :=
  if journal.enabled entry.severity then
    { journal with entries := journal.entries ++ [entry] }
  else journal

theorem entries_record (journal : Journal) (entry : Entry) :
    (journal.record entry).entries =
      journal.entries ++ [entry].filter (journal.enabled ·.severity) := by
  unfold record
  by_cases h : journal.enabled entry.severity = true
  · simp [h]
  · simp [h]

@[simp] theorem threshold_record (journal : Journal) (entry : Entry) :
    (journal.record entry).threshold = journal.threshold := by
  unfold record
  split <;> rfl

def lines (journal : Journal) : List String :=
  journal.entries.map Entry.line

end Journal

/-- Actions that write to a journal. -/
abbrev Logging := StateM Journal

def record (entry : Entry) : Logging Unit :=
  modify (·.record entry)

def emit (event : Event) (fields : List (String × String)) : Logging Unit :=
  record ⟨event.severity, event.label, fields⟩

end TableIntake.Log
