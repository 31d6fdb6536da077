import TableIntake.Json.Failure
import TableIntake.Json.Outline

namespace TableIntake.Json

/-! Reading typed values from outlines. What stands first in the text is judged first. -/

abbrev Reader (α : Type) := Outline → Except Failure α

namespace Reader

def malformed : Except Failure α :=
  .error .malformed

def ofScalar (value : Scalar) (left : Nat)
    (cause : Found → Mismatch) : Except Failure α :=
  let mismatch (found : Found) := Except.error (.mismatch (cause found) (some left))
  match value with
  | .null => mismatch .null
  | .bool b => mismatch (.bool b)
  | .number (some (.integer i)) => mismatch (.integer i)
  | .number (some (.decimal bits)) => mismatch (.decimal bits)
  | .string (some s) => mismatch (.string s)
  | .number none => malformed
  | .string none => malformed

def refuse (expected : String) : Reader α
  | .scalar value left => ofScalar value left (.wrongType · expected)
  | .array _ => .error (.mismatch (.wrongType .sequence expected) none)
  | .object _ => .error (.mismatch (.wrongType .map expected) none)
  | .broken => malformed

def string (expected : String) : Reader String
  | .scalar (.string (some s)) _ => .ok s
  | outline => refuse expected outline

def integer (low high : Int) (expected : String) : Reader Int
  | .scalar (.number (some (.integer i))) left =>
      if low ≤ i ∧ i ≤ high then .ok i
      else .error (.mismatch (.wrongValue (.integer i) expected) (some left))
  | outline => refuse expected outline

def option (read : Reader α) : Reader (Option α)
  | .scalar .null _ => .ok none
  | outline => (read outline).map some

def list (read : Reader α) : Reader (List α)
  | .array items => items.mapM read
  | outline => refuse "a sequence" outline

def null : Reader Unit
  | .scalar .null _ => .ok ()
  | outline => refuse "unit" outline

/-- One of the known names, alone or as the only key of an object with the value null. -/
def name (known : List String) : Reader String
  | .scalar (.string (some s)) left =>
      if s ∈ known then .ok s else .error (.mismatch (.unknownName s known) (some left))
  | .object ((some key, value) :: members) =>
      if key ∈ known then do
        null value
        if members.isEmpty then .ok key else malformed
      else .error (.mismatch (.unknownName key known) none)
  | _ => malformed

mutual

/-- Any value, with arrays and objects nested at most `room` levels deep. -/
def value : Nat → Reader Value
  | _, .scalar .null _ => .ok .null
  | _, .scalar (.bool b) _ => .ok (.bool b)
  | _, .scalar (.number (some n)) _ => .ok (.number n)
  | _, .scalar (.string (some s)) _ => .ok (.string s)
  | _, .scalar (.number none) _ => malformed
  | _, .scalar (.string none) _ => malformed
  | 0, .array _ => malformed
  | 0, .object _ => malformed
  | room + 1, .array items => (values room items).map .array
  | room + 1, .object members => (members' room members []).map .object
  | _, .broken => malformed

def values : Nat → List Outline → Except Failure (List Value)
  | _, [] => .ok []
  | room, item :: items =>
      match value room item with
      | .error failure => .error failure
      | .ok v => (values room items).map (v :: ·)

/-- The members in the order of their keys; of two with one key the later one stays. -/
def members' : Nat → List (Option String × Outline) → List (String × Value) →
    Except Failure (List (String × Value))
  | _, [], sorted => .ok sorted
  | _, (none, _) :: _, _ => malformed
  | room, (some key, outline) :: members, sorted =>
      match value room outline with
      | .error failure => .error failure
      | .ok v => members' room members (insertKey key v sorted)

end

end Reader

/-- What holds for a field that a text leaves out. -/
inductive Absence where
  | refused
  /-- Absent from an object it is null; an array has to have it. -/
  | null
  | default
  deriving DecidableEq

structure Field (σ : Type) where
  name : String
  absence : Absence
  read : σ → Reader σ

namespace Record

def members (fields : List (Field σ)) : σ → List String →
    List (Option String × Outline) → Except Failure (σ × List String)
  | record, seen, [] => .ok (record, seen)
  | _, _, (none, _) :: _ => .error .malformed
  | record, seen, (some key, outline) :: rest =>
      match fields.find? (·.name = key) with
      | none =>
          if outline.isWhole then members fields record seen rest else .error .malformed
      | some field =>
          if key ∈ seen then .error (.mismatch (.repeatedField key) none)
          else match field.read record outline with
            | .error failure => .error failure
            | .ok record => members fields record (key :: seen) rest

def items (expected : String) : σ → Nat → List (Field σ) → List Outline →
    Except Failure σ
  | record, _, [], [] => .ok record
  | _, _, [], _ :: _ => .error .malformed
  | record, length, field :: fields, [] =>
      if field.absence = .default then items expected record length fields []
      else .error (.mismatch (.wrongLength length expected) none)
  | record, length, field :: fields, item :: rest =>
      match field.read record item with
      | .error failure => .error failure
      | .ok record => items expected record (length + 1) fields rest

/-- Reads a record from an object, or from an array that holds its fields in their order. The
members that are no fields of it do not matter. -/
def read (name : String) (fields : List (Field σ)) (start : σ) : Reader σ
  | .object ms => do
      let (record, seen) ← members fields start [] ms
      match fields.find? fun field => field.absence = .refused ∧ field.name ∉ seen with
      | some field => .error (.mismatch (.missingField field.name) none)
      | none => .ok record
  | .array outlines =>
      let count := if fields.length = 1 then "1 element" else s!"{fields.length} elements"
      items s!"struct {name} with {count}" start 0 fields outlines
  | outline => Reader.refuse s!"struct {name}" outline

end Record

/-- Reads a whole text; only blanks may follow the value. -/
def read (reader : Reader α) (text : String) : Except Failure α :=
  let (outline, rest) := Outline.ofChars text.toList
  match reader outline with
  | .error failure => .error failure
  | .ok a => if (skipSpaces rest).isEmpty then .ok a else .error .malformed

/-- The depth to which arrays and objects may be nested. -/
def depthLimit : Nat := 127

def parse (text : String) : Except Failure Value :=
  read (Reader.value depthLimit) text

end TableIntake.Json
