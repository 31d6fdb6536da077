import TableIntake.Archive.Inflate.Bits

namespace TableIntake.Archive.Inflate

/-! Prefix codes, given by the lengths of the words of all symbols. -/

structure Code where
  /-- How many words there are of each length from 1 on. -/
  counts : List Nat
  symbols : Array Nat

namespace Code

def maxLength : Nat := 15

/-- The share of all words of the greatest length that begin with a word of a length. -/
def share (length : Nat) : Nat :=
  1 <<< (maxLength - length)

def symbolsOf (lengths : List Nat) (length : Nat) : List Nat :=
  lengths.zipIdx.filterMap fun (l, symbol) => if l = length then some symbol else none

def ofLengths (lengths : List Nat) : Code :=
  let range := (List.range maxLength).map (· + 1)
  ⟨range.map fun length => lengths.count length, (range.flatMap (symbolsOf lengths)).toArray⟩

def isComplete (code : Code) : Bool :=
  (code.counts.zipIdx 1).foldl (fun sum (count, length) => sum + count * share length) 0 = share 0

/-- No word has more than one bit, and no more than one word has that. -/
def isMeagre (code : Code) : Bool :=
  let words := code.counts.foldl (· + ·) 0
  words ≤ 1 && words = code.counts.headD 0

/-- `first` is the lowest word of the length at hand and `index` the place of its symbol. Bits
that begin no word are a defect as soon as no longer words are left. -/
def search (symbols : Array Nat) :
    List Nat → (word first index : Nat) → Bits → Except Defect (Nat × Bits)
  | [], _, _, _, _ => .error .corrupt
  | count :: counts, word, first, index, bits => do
      let (bit, bits) ← bits.next
      let word := 2 * word + bit
      let first := 2 * first
      if first ≤ word ∧ word < first + count then
        match symbols[index + (word - first)]? with
        | some symbol => return (symbol, bits)
        | none => .error .corrupt
      else if counts.all (· = 0) then .error .corrupt
      else search symbols counts word (first + count) (index + count) bits

def read (code : Code) (bits : Bits) : Except Defect (Nat × Bits) :=
  search code.symbols code.counts 0 0 0 bits

end Code

end TableIntake.Archive.Inflate
