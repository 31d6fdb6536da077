import TableIntake.Json.Printer
import TableIntake.Log.Severity

namespace TableIntake.Log

/-! Log entries and the lines that show them. -/

structure Entry where
  severity : Severity
  event : String
  fields : List (String × String) := []
  deriving DecidableEq, Repr

/-- Fields in the order of their keys; those of one key keep their order. -/
def sortFields (fields : List (String × String)) : List (String × String) :=
  fields.mergeSort fun a b => decide (a.1 ≤ b.1)

def fieldChars (field : String × String) : List Char :=
  ',' :: (Json.quote field.1 ++ ':' :: Json.quote field.2)

def Entry.line (entry : Entry) : String :=
  String.ofList <|
    '\x7b' :: (Json.quote "event" ++ ':' :: Json.quote entry.event)
      ++ fieldChars ("severity", entry.severity.label)
      ++ (sortFields entry.fields).flatMap fieldChars
      ++ ['\x7d', '\n']

theorem sortFields_perm (fields : List (String × String)) :
    (sortFields fields).Perm fields :=
  List.mergeSort_perm fields _

end TableIntake.Log
