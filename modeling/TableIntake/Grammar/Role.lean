import TableIntake.Json.Reader

namespace TableIntake.Grammar

/-! The roles that a column can have. -/

inductive Role where
  | none
  | primaryKey
  | index
  | foreignKey
  | timestamp
  deriving DecidableEq, Repr

namespace Role

def all : List Role :=
  [none, primaryKey, index, foreignKey, timestamp]

def marker : Role → String
  | none => ""
  | primaryKey => "PK"
  | index => "Index"
  | foreignKey => "FK"
  | timestamp => "Timestamp"

def ofMarker? (marker : String) : Option Role :=
  all.find? (·.marker = marker)

def name : Role → String
  | none => "None"
  | primaryKey => "PrimaryKey"
  | index => "Index"
  | foreignKey => "ForeignKey"
  | timestamp => "Timestamp"

def ofName? (name : String) : Option Role :=
  all.find? (·.name = name)

@[simp] theorem ofMarker?_marker (r : Role) : ofMarker? r.marker = some r := by
  cases r <;> decide

theorem marker_of_ofMarker? {marker : String} {r : Role}
    (h : ofMarker? marker = some r) : r.marker = marker := by
  simpa using List.find?_some h

@[simp] theorem ofName?_name (r : Role) : ofName? r.name = some r := by
  cases r <;> decide

def reader : Json.Reader Role := fun outline => do
  let name ← Json.Reader.name (all.map name) outline
  match ofName? name with
  | some r => return r
  | Option.none => Json.Reader.malformed

end Role

end TableIntake.Grammar
