import TableIntake.Json.Reader

namespace TableIntake.Grammar

/-! The types that a column can declare. -/

inductive DataType where
  | string
  | number
  | integer
  deriving DecidableEq, Repr

namespace DataType

def all : List DataType :=
  [string, number, integer]

def literal : DataType → String
  | string => "string"
  | number => "number"
  | integer => "integer"

def ofLiteral? (literal : String) : Option DataType :=
  all.find? (·.literal = literal)

@[simp] theorem ofLiteral?_literal (t : DataType) : ofLiteral? t.literal = some t := by
  cases t <;> decide

theorem literal_of_ofLiteral? {literal : String} {t : DataType}
    (h : ofLiteral? literal = some t) : t.literal = literal := by
  simpa using List.find?_some h

def reader : Json.Reader DataType := fun outline => do
  let name ← Json.Reader.name (all.map literal) outline
  match ofLiteral? name with
  | some t => return t
  | none => Json.Reader.malformed

end DataType

end TableIntake.Grammar
