import TableIntake.Grammar.DataType
import TableIntake.Grammar.Role
import TableIntake.Text.Quoted

namespace TableIntake.Grammar

open TableIntake.Text

/-! Dialects: the vocabulary of a kind of grammar and the codes of its findings. -/

inductive FindingKind where
  | invalidDataType
  | invalidRole
  | columnCount
  | dataConformance
  deriving DecidableEq, Repr

namespace FindingKind

def all : List FindingKind :=
  [invalidDataType, invalidRole, columnCount, dataConformance]

def label : FindingKind → String
  | invalidDataType => "INVALID_DATA_TYPE"
  | invalidRole => "INVALID_ROLE"
  | columnCount => "COLUMN_COUNT"
  | dataConformance => "DATA_CONFORMANCE"

end FindingKind

structure Dialect where
  label : String
  roles : List Role
  /-- The roles of which a grammar has to use one. -/
  keyRoles : List Role
  dataTypes : List DataType
  code : FindingKind → UInt16

namespace Dialect

def codes (dialect : Dialect) : List UInt16 :=
  FindingKind.all.map dialect.code

def allowsRole (dialect : Dialect) (role : Role) : Bool :=
  decide (role ∈ dialect.roles)

def allowsMarker (dialect : Dialect) (marker : String) : Bool :=
  (Role.ofMarker? marker).any dialect.allowsRole

def isKeyMarker (dialect : Dialect) (marker : String) : Bool :=
  (Role.ofMarker? marker).any fun role => decide (role ∈ dialect.keyRoles)

def lacksKey (dialect : Dialect) (markers : List String) : Bool :=
  !markers.any dialect.isKeyMarker

def dataType? (dialect : Dialect) (literal : String) : Option DataType :=
  (DataType.ofLiteral? literal).filter fun t => decide (t ∈ dialect.dataTypes)

/-! The vocabularies as messages list them. -/

def roleVocabulary (dialect : Dialect) : String :=
  quotedList ((dialect.roles.filter (· ≠ .none)).map Role.marker)

def keyVocabulary (dialect : Dialect) : String :=
  " or ".intercalate (dialect.keyRoles.map Role.marker)

def typeVocabulary (dialect : Dialect) : String :=
  quotedList (dialect.dataTypes.map DataType.literal)

/-- Dimensions have primary keys or indices. -/
def dimension : Dialect where
  label := "Dimension"
  roles := [.none, .primaryKey, .index]
  keyRoles := [.primaryKey, .index]
  dataTypes := DataType.all
  code
    | .invalidDataType => 1002
    | .invalidRole => 1003
    | .columnCount => 2003
    | .dataConformance => 2004

def event : Dialect where
  label := "Event"
  roles := [.none, .foreignKey, .timestamp]
  keyRoles := [.foreignKey]
  dataTypes := DataType.all
  code
    | .invalidDataType => 3002
    | .invalidRole => 3003
    | .columnCount => 4003
    | .dataConformance => 4004

end Dialect

end TableIntake.Grammar
