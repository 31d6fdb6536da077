import TableIntake.Json.Numeral

namespace TableIntake.Json

/-! The outline of a JSON text: its structure as far as the text is well formed.

Whether a defect of the text matters, and whether before or after a defect of its content, is
for the reader of the outline to decide: it meets both in the order of the text. -/

inductive Scalar where
  | null
  | bool (b : Bool)
  /-- A numeral, and its number unless that is too large. -/
  | number (n : Option Number)
  /-- A string, and its text unless a half of a surrogate pair stands alone in it. -/
  | string (s : Option String)
  deriving DecidableEq, Repr

inductive Outline where
  /-- A scalar, and how many characters follow it. -/
  | scalar (value : Scalar) (left : Nat)
  | array (items : List Outline)
  /-- Members by their keys; no text stands for a key that is no readable string. -/
  | object (members : List (Option String × Outline))
  | broken
  deriving Repr, Inhabited

/-- The blanks of JSON, fewer than those of `Text.isBlank`. -/
def isSpace (c : Char) : Bool :=
  c = ' ' || c = '\n' || c = '\t' || c = '\r'

def skipSpaces (cs : List Char) : List Char :=
  cs.dropWhile isSpace

def hexValue? (c : Char) : Option Nat :=
  if c.isDigit then some (c.toNat - 48)
  else if 'a' ≤ c ∧ c ≤ 'f' then some (c.toNat - 87)
  else if 'A' ≤ c ∧ c ≤ 'F' then some (c.toNat - 55)
  else none

def hex4? (a b c d : Char) : Option Nat := do
  return (← hexValue? a) * 4096 + (← hexValue? b) * 256 + (← hexValue? c) * 16 + (← hexValue? d)

def unescape? (c : Char) : Option Char :=
  if c = '"' ∨ c = '\\' ∨ c = '/' then some c
  else if c = 'b' then some '\x08'
  else if c = 'f' then some '\x0c'
  else if c = 'n' then some '\n'
  else if c = 'r' then some '\r'
  else if c = 't' then some '\t'
  else none

/-- The codes of a string from behind its opening quotation mark, and what follows the closing
one. A code from `D800` to `DFFF` is a half of a surrogate pair. -/
def stringCodes? : List Char → Option (List Nat × List Char)
  | [] => none
  | '"' :: rest => some ([], rest)
  | '\\' :: 'u' :: a :: b :: c :: d :: rest => do
      let code ← hex4? a b c d
      let (codes, rest) ← stringCodes? rest
      return (code :: codes, rest)
  | '\\' :: c :: rest => do
      let c ← unescape? c
      let (codes, rest) ← stringCodes? rest
      return (c.toNat :: codes, rest)
  | c :: rest =>
      if c.toNat < 0x20 ∨ c = '\\' then none
      else do
        let (codes, rest) ← stringCodes? rest
        return (c.toNat :: codes, rest)

/-- The characters of the codes, with surrogate pairs joined. -/
def joinCodes? : List Nat → Option (List Char)
  | [] => some []
  | high :: codes =>
      if high < 0xd800 ∨ 0xdfff < high then
        (joinCodes? codes).map (Char.ofNat high :: ·)
      else match codes with
        | low :: codes =>
            if high ≤ 0xdbff ∧ 0xdc00 ≤ low ∧ low ≤ 0xdfff then
              (joinCodes? codes).map
                (Char.ofNat ((high - 0xd800) * 1024 + (low - 0xdc00) + 0x10000) :: ·)
            else none
        | [] => none

def string? (cs : List Char) : Option (Option String × List Char) :=
  (stringCodes? cs).map fun (codes, rest) => ((joinCodes? codes).map String.ofList, rest)

def word? (word : List Char) (cs : List Char) : Option (List Char) :=
  if word.isPrefixOf cs then some (cs.drop word.length) else none

def number? (cs : List Char) : Option (Scalar × List Char) :=
  (Numeral.lex? cs).map fun (x, rest) => (.number x.value?, rest)

def scalar? : List Char → Option (Scalar × List Char)
  | [] => none
  | c :: cs =>
      if c = '"' then (string? cs).map fun (s, rest) => (.string s, rest)
      else if c = 'n' then (word? ['u', 'l', 'l'] cs).map fun rest => (.null, rest)
      else if c = 't' then (word? ['r', 'u', 'e'] cs).map fun rest => (.bool true, rest)
      else if c = 'f' then
        (word? ['a', 'l', 's', 'e'] cs).map fun rest => (.bool false, rest)
      else number? (c :: cs)

namespace Outline

mutual

def readValue : Nat → List Char → Outline × List Char
  | 0, _ => (.broken, [])
  | fuel + 1, cs =>
      match skipSpaces cs with
      | [] => (.broken, [])
      | c :: cs =>
          if c = '[' then
            match skipSpaces cs with
            | ']' :: rest => (.array [], rest)
            | cs =>
                let (items, rest) := readItems fuel cs
                (.array items, rest)
          else if c = '\x7b' then
            match skipSpaces cs with
            | '\x7d' :: rest => (.object [], rest)
            | cs =>
                let (members, rest) := readMembers fuel cs
                (.object members, rest)
          else match scalar? (c :: cs) with
            | some (value, rest) => (.scalar value rest.length, rest)
            | none => (.broken, [])

/-- The items up to the bracket that closes the array; the last one is broken if it does not
close. -/
def readItems : Nat → List Char → List Outline × List Char
  | 0, _ => ([.broken], [])
  | fuel + 1, cs =>
      let (item, rest) := readValue fuel cs
      match skipSpaces rest with
      | ',' :: rest =>
          let (items, rest) := readItems fuel rest
          (item :: items, rest)
      | ']' :: rest => ([item], rest)
      | _ => ([item, .broken], [])

def readMembers : Nat → List Char → List (Option String × Outline) × List Char
  | 0, _ => ([(none, .broken)], [])
  | fuel + 1, cs =>
      match skipSpaces cs with
      | '"' :: cs =>
          match string? cs with
          | none => ([(none, .broken)], [])
          | some (key, rest) =>
              match skipSpaces rest with
              | ':' :: rest =>
                  let (value, rest) := readValue fuel rest
                  match skipSpaces rest with
                  | ',' :: rest =>
                      let (members, rest) := readMembers fuel rest
                      ((key, value) :: members, rest)
                  | '\x7d' :: rest => ([(key, value)], rest)
                  | _ => ([(key, value), (none, .broken)], [])
              | _ => ([(key, .broken)], [])
      | _ => ([(none, .broken)], [])

end

def ofChars (cs : List Char) : Outline × List Char :=
  readValue (2 * cs.length + 2) cs

mutual

/-- The text is JSON to the end of this value. -/
def isWhole : Outline → Bool
  | .scalar _ _ => true
  | .array items => areWhole items
  | .object members => membersWhole members
  | .broken => false

def areWhole : List Outline → Bool
  | [] => true
  | item :: items => item.isWhole && areWhole items

def membersWhole : List (Option String × Outline) → Bool
  | [] => true
  | (_, value) :: members => value.isWhole && membersWhole members

end

end Outline

end TableIntake.Json
