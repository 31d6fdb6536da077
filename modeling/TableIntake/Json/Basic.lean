import TableIntake.Keyed

namespace TableIntake.Json

/-! Data values, as findings carry and responses consist of. -/

/-- Whole numbers from `-2^63` to `2^64 - 1` are kept as such; all others are floating point
numbers, given by their bits. -/
inductive Number where
  | integer (value : Int)
  | decimal (bits : UInt64)
  deriving DecidableEq, Repr

/-- Zero has two signs and is one number. -/
def Number.same : Number → Number → Bool
  | .integer a, .integer b => a == b
  | .decimal a, .decimal b => a == b || (a <<< 1 == 0 && b <<< 1 == 0)
  | _, _ => false

inductive Value where
  | null
  | bool (b : Bool)
  | number (n : Number)
  | string (s : String)
  | array (items : List Value)
  | object (members : List (String × Value))
  deriving Repr, Inhabited

namespace Value

def natural (n : Nat) : Value :=
  .number (.integer n)

def strings (items : List String) : Value :=
  .array (items.map .string)

def sortMembers (members : List (String × Value)) : List (String × Value) :=
  members.foldl (fun sorted (key, value) => insertKey key value sorted) []

mutual

/-- The same data with the members of every object in the order of their keys. -/
def sorted : Value → Value
  | .array items => .array (sortedItems items)
  | .object members => .object (sortMembers (sortedMembers members))
  | .null => .null
  | .bool b => .bool b
  | .number n => .number n
  | .string s => .string s

def sortedItems : List Value → List Value
  | [] => []
  | item :: items => item.sorted :: sortedItems items

def sortedMembers : List (String × Value) → List (String × Value)
  | [] => []
  | (key, value) :: members => (key, value.sorted) :: sortedMembers members

end

mutual

/-- Equality of data, numbers compared as numbers. -/
def same : Value → Value → Bool
  | .null, .null => true
  | .bool a, .bool b => a == b
  | .number a, .number b => a.same b
  | .string a, .string b => a == b
  | .array a, .array b => sameItems a b
  | .object a, .object b => sameMembers a b
  | _, _ => false

def sameItems : List Value → List Value → Bool
  | [], [] => true
  | a :: as, b :: bs => a.same b && sameItems as bs
  | _, _ => false

def sameMembers : List (String × Value) → List (String × Value) → Bool
  | [], [] => true
  | (k, a) :: as, (l, b) :: bs => k == l && a.same b && sameMembers as bs
  | _, _ => false

end

end Value

end TableIntake.Json
