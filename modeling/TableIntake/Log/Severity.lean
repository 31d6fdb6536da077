namespace TableIntake.Log

/-! Severities of log entries. -/

inductive Severity where
  | trace
  | info
  | warn
  | error
  | fatal
  deriving DecidableEq, Repr

namespace Severity

def rank : Severity → Nat
  | trace => 0
  | info => 1
  | warn => 2
  | error => 3
  | fatal => 4

instance : LE Severity where
  le low high := low.rank ≤ high.rank

instance (low high : Severity) : Decidable (low ≤ high) :=
  inferInstanceAs (Decidable (low.rank ≤ high.rank))

theorem le_refl (s : Severity) : s ≤ s :=
  Nat.le_refl s.rank

theorem le_trans {a b c : Severity} (first : a ≤ b) (second : b ≤ c) : a ≤ c :=
  Nat.le_trans first second

def label : Severity → String
  | trace => "TRACE"
  | info => "INFO"
  | warn => "WARN"
  | error => "ERROR"
  | fatal => "FATAL"

def all : List Severity :=
  [trace, info, warn, error, fatal]

/-- The severity of a level name, in capitals or not. -/
def ofName? (name : String) : Option Severity :=
  all.find? fun severity => severity.label.toList = name.toList.map Char.toUpper

end Severity

end TableIntake.Log
