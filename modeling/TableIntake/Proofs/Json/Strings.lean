import TableIntake.Json.Outline
import TableIntake.Json.Printer

namespace TableIntake.Json

/-! Strings as they are quoted are read as what they are. -/

theorem hexValue?_hexDigit (n : Nat) : hexValue? (hexDigit n) = some (n % 16) := by
  have hall : ∀ m < 16, hexValue? (Nat.digitChar m) = some m := by decide
  exact hall (n % 16) (Nat.mod_lt n (by decide))

theorem hex4?_hexDigit {n : Nat} (h : n < 0x20) :
    hex4? '0' '0' (hexDigit (n / 16)) (hexDigit n) = some n := by
  have hzero : hexValue? '0' = some 0 := by decide
  have hvalue : n / 16 % 16 * 16 + n % 16 = n := by omega
  simp [hex4?, hzero, hexValue?_hexDigit, hvalue]

def shortEscapes : List (Char × Char) :=
  [('"', '"'), ('\\', '\\'), ('\x08', 'b'), ('\x0c', 'f'), ('\n', 'n'), ('\r', 'r'), ('\t', 't')]

theorem mem_shortEscapes {c short : Char} (h : shortEscape? c = some short) :
    (c, short) ∈ shortEscapes := by
  grind [shortEscape?, shortEscapes]

/-- A short escape stands for its character, and is not the one that takes digits. -/
theorem unescape?_of_shortEscape? {c short : Char} (h : shortEscape? c = some short) :
    unescape? short = some c ∧ short ≠ 'u' := by
  have hall : ∀ pair ∈ shortEscapes, unescape? pair.2 = some pair.1 ∧ pair.2 ≠ 'u' := by decide
  exact hall (c, short) (mem_shortEscapes h)

theorem ne_of_shortEscape?_eq_none {c : Char} (h : shortEscape? c = none) :
    c ≠ '"' ∧ c ≠ '\\' := by
  constructor <;> (rintro rfl; cases h)

theorem stringCodes?_short {c short : Char} (h : shortEscape? c = some short)
    {cs rest : List Char} {codes : List Nat} (hcs : stringCodes? cs = some (codes, rest)) :
    stringCodes? ('\\' :: short :: cs) = some (c.toNat :: codes, rest) := by
  obtain ⟨hcode, hne⟩ := unescape?_of_shortEscape? h
  rw [stringCodes?, hcode, hcs]
  · rfl
  · exact fun _ _ _ _ _ heq _ => hne heq

theorem stringCodes?_plain {c : Char} (hquote : c ≠ '"') (hslash : c ≠ '\\')
    (hspace : ¬ c.toNat < 0x20) {cs rest : List Char} {codes : List Nat}
    (hcs : stringCodes? cs = some (codes, rest)) :
    stringCodes? (c :: cs) = some (c.toNat :: codes, rest) := by
  rw [stringCodes?, if_neg (not_or.mpr ⟨hspace, hslash⟩), hcs]
  · rfl
  · exact hquote
  · exact fun _ _ _ _ _ heq _ => hslash heq
  · exact fun _ _ heq _ => hslash heq

theorem stringCodes?_escape (c : Char) {cs rest : List Char} {codes : List Nat}
    (hcs : stringCodes? cs = some (codes, rest)) :
    stringCodes? (escape c ++ cs) = some (c.toNat :: codes, rest) := by
  unfold escape
  cases hshort : shortEscape? c with
  | some short => exact stringCodes?_short hshort hcs
  | none =>
      obtain ⟨hquote, hslash⟩ := ne_of_shortEscape?_eq_none hshort
      by_cases hspace : c.toNat < 0x20
      · simp only [if_pos hspace, List.cons_append, List.nil_append]
        rw [stringCodes?, hex4?_hexDigit hspace, hcs]
        rfl
      · simp only [if_neg hspace]
        exact stringCodes?_plain hquote hslash hspace hcs

theorem stringCodes?_escaped (cs rest : List Char) :
    stringCodes? (cs.flatMap escape ++ '"' :: rest) = some (cs.map Char.toNat, rest) := by
  induction cs with
  | nil => rfl
  | cons c cs ih =>
      rw [List.flatMap_cons, List.append_assoc]
      exact stringCodes?_escape c ih

/-- No character is a half of a surrogate pair. -/
theorem not_surrogate (c : Char) : c.toNat < 0xd800 ∨ 0xdfff < c.toNat := by
  rcases c.valid with h | ⟨h, -⟩
  · exact Or.inl h
  · exact Or.inr h

theorem joinCodes?_toNat (cs : List Char) : joinCodes? (cs.map Char.toNat) = some cs := by
  induction cs with
  | nil => rfl
  | cons c cs ih =>
      rw [List.map_cons, joinCodes?.eq_def]
      simp only [if_pos (not_surrogate c), ih, Char.ofNat_toNat, Option.map_some]

/-- A quoted string is read from its text, from behind the first quotation mark. -/
theorem string?_quoted (s : String) (rest : List Char) :
    string? (s.toList.flatMap escape ++ '"' :: rest) = some (some s, rest) := by
  rw [string?, stringCodes?_escaped, Option.map_some]
  simp only [joinCodes?_toNat, Option.map_some, String.ofList_toList]

end TableIntake.Json
