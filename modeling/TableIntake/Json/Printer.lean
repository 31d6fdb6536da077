import TableIntake.Decimal.Layout
import TableIntake.Json.Basic

namespace TableIntake.Json

open TableIntake.Decimal

/-! The compact text of a value: no blanks, every control character escaped. -/

def shortEscape? (c : Char) : Option Char :=
  if c = '"' then some '"'
  else if c = '\\' then some '\\'
  else if c = '\x08' then some 'b'
  else if c = '\x0c' then some 'f'
  else if c = '\n' then some 'n'
  else if c = '\r' then some 'r'
  else if c = '\t' then some 't'
  else none

def hexDigit (n : Nat) : Char :=
  Nat.digitChar (n % 16)

def escape (c : Char) : List Char :=
  match shortEscape? c with
  | some short => ['\\', short]
  | none =>
      if c.toNat < 0x20 then
        ['\\', 'u', '0', '0', hexDigit (c.toNat / 16), hexDigit c.toNat]
      else [c]

def quote (s : String) : List Char :=
  '"' :: (s.toList.flatMap escape ++ ['"'])

def Number.chars : Number → List Char
  | .integer value => (toString value).toList
  | .decimal bits => (Layout.compact.write bits).toList

mutual

def Value.chars : Value → List Char
  | .null => ['n', 'u', 'l', 'l']
  | .bool true => ['t', 'r', 'u', 'e']
  | .bool false => ['f', 'a', 'l', 's', 'e']
  | .number n => n.chars
  | .string s => quote s
  | .array [] => ['[', ']']
  | .array (item :: items) => '[' :: (item.chars ++ itemChars items)
  | .object [] => ['\x7b', '\x7d']
  | .object ((key, value) :: members) =>
      '\x7b' :: (quote key ++ ':' :: (value.chars ++ memberChars members))

def itemChars : List Value → List Char
  | [] => [']']
  | item :: items => ',' :: (item.chars ++ itemChars items)

def memberChars : List (String × Value) → List Char
  | [] => ['\x7d']
  | (key, value) :: members =>
      ',' :: (quote key ++ ':' :: (value.chars ++ memberChars members))

end

def Value.render (v : Value) : String :=
  String.ofList v.chars

def quoted (s : String) : String :=
  String.ofList (quote s)

end TableIntake.Json
