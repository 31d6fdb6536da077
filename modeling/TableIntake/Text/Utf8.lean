namespace TableIntake.Text

/-! Texts and their UTF-8 bytes. -/

def utf8 (s : String) : List UInt8 :=
  s.toUTF8.data.toList

def ofUtf8? (bytes : List UInt8) : Option String :=
  String.fromUTF8? ⟨bytes.toArray⟩

/-- What a byte that can begin a sequence promises: how many bytes follow, the bounds of the
first of them, and its own share of the bits. -/
def lead? (b : UInt8) : Option (Nat × UInt8 × UInt8 × Nat) :=
  if b < 0x80 then some (0, 0x80, 0xbf, b.toNat)
  else if 0xc2 ≤ b && b ≤ 0xdf then some (1, 0x80, 0xbf, b.toNat % 32)
  else if b = 0xe0 then some (2, 0xa0, 0xbf, 0)
  else if b = 0xed then some (2, 0x80, 0x9f, 13)
  else if 0xe1 ≤ b && b ≤ 0xef then some (2, 0x80, 0xbf, b.toNat % 16)
  else if b = 0xf0 then some (3, 0x90, 0xbf, 0)
  else if 0xf1 ≤ b && b ≤ 0xf3 then some (3, 0x80, 0xbf, b.toNat % 8)
  else if b = 0xf4 then some (3, 0x80, 0x8f, 4)
  else none

/-- An unfinished sequence: the bytes still due, the bounds of the next one, the bits so far. -/
structure Unfinished where
  due : Nat
  low : UInt8
  high : UInt8
  bits : Nat

def begin (b : UInt8) : List Char × Option Unfinished :=
  match lead? b with
  | none => (['\ufffd'], none)
  | some (0, _, _, bits) => ([Char.ofNat bits], none)
  | some (due + 1, low, high, bits) => ([], some ⟨due + 1, low, high, bits⟩)

def proceed (b : UInt8) : Option Unfinished → List Char × Option Unfinished
  | none => begin b
  | some p =>
      if p.low ≤ b && b ≤ p.high then
        let bits := p.bits * 64 + b.toNat % 64
        if p.due ≤ 1 then ([Char.ofNat bits], none)
        else ([], some ⟨p.due - 1, 0x80, 0xbf, bits⟩)
      else
        let (out, rest) := begin b
        ('\ufffd' :: out, rest)

def lossyChars : Option Unfinished → List UInt8 → List Char
  | none, [] => []
  | some _, [] => ['\ufffd']
  | state, b :: bytes =>
      let (out, state) := proceed b state
      out ++ lossyChars state bytes

/-- The text of the bytes, with one `U+FFFD` for each longest part of a sequence that does not
go on as UTF-8 must. -/
def ofUtf8Lossy (bytes : List UInt8) : String :=
  String.ofList (lossyChars none bytes)

end TableIntake.Text
