import TableIntake.Check.Rows
import TableIntake.Log.Journal

namespace TableIntake

open TableIntake.Grammar
open TableIntake.Log (Logging)

/-! The two variants of grammars, and the checks by variant. -/

inductive Variant where
  | dimension
  | event
  deriving DecidableEq, Repr

structure UnknownVariant where
  text : String
  deriving DecidableEq, Repr

namespace UnknownVariant

def code : String := "INGEST_DISPATCH_UNKNOWN_VARIANT"

def message (unknown : UnknownVariant) : String :=
  s!"Unknown variant '{unknown.text}': expected 'dimension' or 'event'"

end UnknownVariant

namespace Variant

def all : List Variant :=
  [dimension, event]

def name : Variant → String
  | dimension => "dimension"
  | event => "event"

def dialect : Variant → Dialect
  | dimension => .dimension
  | event => .event

def ofName? (name : String) : Option Variant :=
  all.find? (·.name = name)

@[simp] theorem ofName?_name (v : Variant) : ofName? v.name = some v := by
  cases v <;> decide

/-- The variant that a text names; blanks around the name do not matter. -/
def ofText (text : String) : Except UnknownVariant Variant :=
  match ofName? (Text.trimmed text) with
  | some v => .ok v
  | none => .error ⟨Text.trimmed text⟩

/-- The variant that a text names; a text that names none is logged. -/
def parse (text : String) : Logging (Except UnknownVariant Variant) := do
  let parsed := ofText text
  if let .error unknown := parsed then
    Log.emit .dispatchRejected [("variant", unknown.text)]
  return parsed

def reader : Json.Reader Variant := fun outline => do
  let name ← Json.Reader.name (all.map name) outline
  match ofName? name with
  | some v => return v
  | none => Json.Reader.malformed

def grammarFindings (variant : Variant) (grammar : String) : List Finding :=
  Check.grammar variant.dialect (.parse grammar)

/-- The findings about the rows of a grammar text, then those about the rows of a data text. -/
def rowFindings (variant : Variant) (grammar data : String) : List Finding :=
  let dialect := variant.dialect
  let document := Document.parse grammar
  let schema := Schema.ofDocument document dialect
  Check.embeddedRows dialect schema document.dataLines
    ++ Check.rows dialect schema (dataRows data)

def dataFindings (variant : Variant) (grammar data : String) : List Finding :=
  variant.grammarFindings grammar ++ variant.rowFindings grammar data

def report (variant : Variant) (event : Log.Event) (findings : List Finding) :
    Logging (List Finding) := do
  Log.emit event [("variant", variant.name), ("findings", toString findings.length)]
  return findings

def checkGrammar (variant : Variant) (grammar : String) : Logging (List Finding) :=
  variant.report .grammarChecked (variant.grammarFindings grammar)

def checkData (variant : Variant) (grammar data : String) : Logging (List Finding) :=
  variant.report .dataChecked (variant.dataFindings grammar data)

end Variant

/-! The checks by the name of the variant. -/

def checkGrammar (variant grammar : String) :
    Logging (Except UnknownVariant (List Finding)) := do
  match ← Variant.parse variant with
  | .error unknown => return .error unknown
  | .ok v => return .ok (← v.checkGrammar grammar)

def checkData (variant grammar data : String) :
    Logging (Except UnknownVariant (List Finding)) := do
  match ← Variant.parse variant with
  | .error unknown => return .error unknown
  | .ok v => return .ok (← v.checkData grammar data)

end TableIntake
