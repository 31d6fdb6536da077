import TableIntake.Text.Unprintable

namespace TableIntake.Text

/-! Quoted texts, as error messages show them. -/

/-- Controls and the code points of `unprintableRanges`. -/
def isUnprintable (c : Char) : Bool :=
  c.toNat < 0x20 || unprintableRanges.any fun (low, high) => low ≤ c.toNat && c.toNat ≤ high

def quotedChar (c : Char) : List Char :=
  if c = '"' then ['\\', '"']
  else if c = '\\' then ['\\', '\\']
  else if c = '\n' then ['\\', 'n']
  else if c = '\r' then ['\\', 'r']
  else if c = '\t' then ['\\', 't']
  else if c = '\x00' then ['\\', '0']
  else if isUnprintable c then
    ['\\', 'u', '\x7b'] ++ Nat.toDigits 16 c.toNat ++ ['\x7d']
  else [c]

def quoted (s : String) : String :=
  String.ofList ('"' :: (s.toList.flatMap quotedChar ++ ['"']))

/-- The items between apostrophes, joined by commas and a last "and". -/
def quotedList (items : List String) : String :=
  match (items.map fun item => "'" ++ item ++ "'").reverse with
  | [] => ""
  | [item] => item
  | item :: rest => ", ".intercalate rest.reverse ++ ", and " ++ item

@[simp] theorem quotedList_nil : quotedList [] = "" := rfl

end TableIntake.Text
