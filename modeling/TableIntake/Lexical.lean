import TableIntake.Grammar.DataType
import TableIntake.Text.Blank

namespace TableIntake.Lexical

open TableIntake.Grammar
open TableIntake.Text

/-! The lexical forms of cells. Blanks around a literal do not matter. -/

def dropSign : List Char → List Char
  | '+' :: cs => cs
  | '-' :: cs => cs
  | cs => cs

def isDigits (cs : List Char) : Bool :=
  !cs.isEmpty && cs.all Char.isDigit

/-- Nothing, or a mark with a power of ten. -/
def isExponent : List Char → Bool
  | [] => true
  | c :: cs => (c == 'e' || c == 'E') && isDigits (dropSign cs)

/-- Digits with a point before, behind or among them, or without one; then an exponent. -/
def isUnsigned (cs : List Char) : Bool :=
  let whole := cs.takeWhile Char.isDigit
  match cs.dropWhile Char.isDigit with
  | '.' :: rest =>
      let places := rest.takeWhile Char.isDigit
      !(whole.isEmpty && places.isEmpty) && isExponent (rest.dropWhile Char.isDigit)
  | rest => !whole.isEmpty && isExponent rest

def isInteger (cell : String) : Bool :=
  isDigits (dropSign (trim cell.toList))

def isNumber (cell : String) : Bool :=
  isUnsigned (dropSign (trim cell.toList))

def conforms (cell : String) : DataType → Bool
  | .string => true
  | .number => isNumber cell
  | .integer => isInteger cell

end TableIntake.Lexical
