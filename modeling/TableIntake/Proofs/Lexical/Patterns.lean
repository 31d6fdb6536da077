import Mathlib.Computability.RegularExpressions
import TableIntake.Proofs.Lexical.Forms
import TableIntake.Proofs.Text.Pieces

namespace TableIntake.Lexical

open TableIntake.Text

/-! The forms of literals as the languages of regular expressions. -/

abbrev Pattern := RegularExpression Char

namespace Pattern

def oneOf (choices : List Char) : Pattern :=
  choices.foldr (fun c pattern => .char c + pattern) 0

def optional (pattern : Pattern) : Pattern :=
  1 + pattern

def sign : Pattern :=
  optional (oneOf ['+', '-'])

def digit : Pattern :=
  oneOf ['0', '1', '2', '3', '4', '5', '6', '7', '8', '9']

def digits : Pattern :=
  digit * digit.star

def mantissa : Pattern :=
  digits * optional (.char '.' * digit.star) + .char '.' * digits

def exponent : Pattern :=
  optional (oneOf ['e', 'E'] * (sign * digits))

def integer : Pattern :=
  sign * digits

def number : Pattern :=
  sign * (mantissa * exponent)

/-- The characters that a pattern is made of. -/
def letters : Pattern → List Char
  | .zero => []
  | .epsilon => []
  | .char c => [c]
  | .plus first second => letters first ++ letters second
  | .comp first second => letters first ++ letters second
  | .star pattern => letters pattern

variable {cs : List Char}

theorem mem_char {c : Char} : cs ∈ (RegularExpression.char c).matches' ↔ cs = [c] :=
  Set.mem_singleton_iff

theorem mem_mul {first second : Pattern} :
    cs ∈ (first * second).matches' ↔
      ∃ before behind, before ∈ first.matches' ∧ behind ∈ second.matches' ∧
        cs = before ++ behind := by
  rw [RegularExpression.matches'_mul, Language.mem_mul]
  constructor
  · intro h
    obtain ⟨before, hbefore, behind, hbehind, heq⟩ := h
    exact ⟨before, behind, hbefore, hbehind, heq.symm⟩
  · intro h
    obtain ⟨before, behind, hbefore, hbehind, heq⟩ := h
    exact ⟨before, hbefore, behind, hbehind, heq.symm⟩

/-- What a pattern matches has no other characters than the pattern. -/
theorem mem_letters {pattern : Pattern} (h : cs ∈ pattern.matches') :
    ∀ c ∈ cs, c ∈ letters pattern := by
  induction pattern generalizing cs with
  | zero => cases h
  | epsilon =>
      cases h
      nofun
  | char letter =>
      cases h
      exact fun c hc => hc
  | plus first second ihFirst ihSecond =>
      intro c hc
      cases h with
      | inl h => exact List.mem_append_left _ (ihFirst h c hc)
      | inr h => exact List.mem_append_right _ (ihSecond h c hc)
  | comp first second ihFirst ihSecond =>
      obtain ⟨before, behind, hbefore, hbehind, rfl⟩ := mem_mul.mp h
      intro c hc
      cases List.mem_append.mp hc with
      | inl hc => exact List.mem_append_left _ (ihFirst hbefore c hc)
      | inr hc => exact List.mem_append_right _ (ihSecond hbehind c hc)
  | star pattern ih =>
      obtain ⟨words, rfl, hwords⟩ := Language.mem_kstar.mp h
      intro c hc
      obtain ⟨word, hword, hmem⟩ := List.mem_flatten.mp hc
      exact ih (hwords word hword) c hmem

theorem mem_optional {pattern : Pattern} :
    cs ∈ (optional pattern).matches' ↔ cs = [] ∨ cs ∈ pattern.matches' :=
  Iff.rfl

theorem mem_oneOf {choices : List Char} :
    cs ∈ (oneOf choices).matches' ↔ ∃ c ∈ choices, cs = [c] := by
  induction choices with
  | nil => simp [oneOf]
  | cons c choices ih =>
      rw [List.exists_mem_cons_iff, ← ih]
      exact or_congr_left mem_char

theorem mem_star_oneOf {choices : List Char} :
    cs ∈ (oneOf choices).star.matches' ↔ ∀ c ∈ cs, c ∈ choices := by
  rw [RegularExpression.matches'_star, Language.mem_kstar]
  constructor
  · intro h c hc
    obtain ⟨words, rfl, hwords⟩ := h
    obtain ⟨word, hword, hmem⟩ := List.mem_flatten.mp hc
    obtain ⟨choice, hchoice, rfl⟩ := mem_oneOf.mp (hwords word hword)
    rwa [List.mem_singleton.mp hmem]
  · intro h
    refine ⟨cs.map ([·]), by simp [← List.flatMap_def], ?_⟩
    intro word hword
    obtain ⟨c, hc, rfl⟩ := List.mem_map.mp hword
    exact mem_oneOf.mpr ⟨c, h c hc, rfl⟩

theorem mem_digits_iff {c : Char} :
    c ∈ ['0', '1', '2', '3', '4', '5', '6', '7', '8', '9'] ↔ c.isDigit = true := by
  constructor
  · intro h
    have hall : ['0', '1', '2', '3', '4', '5', '6', '7', '8', '9'].all Char.isDigit = true := by
      decide
    exact List.all_eq_true.mp hall c h
  · intro h
    have hdigits : ∀ n < 10,
        Char.ofNat (48 + n) ∈ ['0', '1', '2', '3', '4', '5', '6', '7', '8', '9'] := by decide
    obtain ⟨hlow, hhigh⟩ := Char.isDigit_iff_toNat.mp h
    obtain ⟨n, hn⟩ := Nat.exists_eq_add_of_le hlow
    rw [← Char.ofNat_toNat c, hn]
    exact hdigits n (Nat.lt_of_add_lt_add_left (hn ▸ Nat.lt_succ_of_le hhigh))

theorem mem_sign : cs ∈ sign.matches' ↔ Sign cs := by
  rw [sign, mem_optional, mem_oneOf]
  constructor
  · intro h
    rcases h with rfl | ⟨c, hc, rfl⟩
    · exact .none
    · rcases List.mem_pair.mp hc with rfl | rfl
      · exact .plus
      · exact .minus
  · intro h
    cases h with
    | none => exact Or.inl rfl
    | plus => exact Or.inr ⟨'+', by decide, rfl⟩
    | minus => exact Or.inr ⟨'-', by decide, rfl⟩

theorem mem_star_digit : cs ∈ digit.star.matches' ↔ ∀ c ∈ cs, c.isDigit = true := by
  simp only [digit, mem_star_oneOf, mem_digits_iff]

theorem mem_digits : cs ∈ digits.matches' ↔ Digits cs := by
  rw [digits, mem_mul]
  simp only [mem_star_digit]
  simp only [digit, mem_oneOf, mem_digits_iff]
  constructor
  · intro h
    obtain ⟨_, rest, ⟨c, hc, rfl⟩, hrest, rfl⟩ := h
    exact ⟨List.cons_ne_nil c rest, List.forall_mem_cons.mpr ⟨hc, hrest⟩⟩
  · intro h
    obtain ⟨c, rest, rfl, hc⟩ := h.head
    exact ⟨[c], rest, ⟨c, hc, rfl⟩, fun d hd => h.2 d (List.mem_cons_of_mem c hd), rfl⟩

theorem mem_mantissa : cs ∈ mantissa.matches' ↔ Mantissa cs := by
  rw [mantissa, RegularExpression.matches'_add, Language.mem_add, mem_mul, mem_mul]
  simp only [mem_optional, mem_mul, mem_digits, mem_star_digit, mem_char]
  constructor
  · intro h
    rcases h with ⟨whole, rest, hwhole, hrest, rfl⟩ | ⟨_, places, rfl, hplaces, rfl⟩
    · rcases hrest with rfl | ⟨_, places, rfl, hplaces, rfl⟩
      · rw [List.append_nil]
        exact .whole hwhole
      · exact .point hwhole hplaces
    · exact .places hplaces
  · intro h
    cases h with
    | whole hdigits => exact Or.inl ⟨cs, [], hdigits, Or.inl rfl, (List.append_nil cs).symm⟩
    | point hdigits hplaces =>
        exact Or.inl ⟨_, _, hdigits, Or.inr ⟨['.'], _, rfl, hplaces, rfl⟩, rfl⟩
    | places hdigits => exact Or.inr ⟨['.'], _, rfl, hdigits, rfl⟩

theorem mem_exponent : cs ∈ exponent.matches' ↔ Exponent cs := by
  rw [exponent, mem_optional, mem_mul]
  simp only [mem_oneOf, mem_mul, mem_sign, mem_digits]
  constructor
  · intro h
    rcases h with rfl | ⟨_, _, ⟨mark, hmark, rfl⟩, ⟨sign, digits, hsign, hdigits, rfl⟩, rfl⟩
    · exact .none
    · rw [List.singleton_append]
      exact .power (List.mem_pair.mp hmark) hsign hdigits
  · intro h
    cases h with
    | none => exact Or.inl rfl
    | power hmark hsign hdigits =>
        exact Or.inr ⟨[_], _, ⟨_, List.mem_pair.mpr hmark, rfl⟩, ⟨_, _, hsign, hdigits, rfl⟩, rfl⟩

theorem mem_integer : cs ∈ integer.matches' ↔ IntegerForm cs := by
  simp only [integer, mem_mul, mem_sign, mem_digits, IntegerForm]

theorem mem_number : cs ∈ number.matches' ↔ NumberForm cs := by
  simp only [number, mem_mul, mem_sign, mem_mantissa, mem_exponent, NumberForm]
  constructor
  · intro h
    obtain ⟨sign, _, hsign, ⟨mantissa, exponent, hmantissa, hexponent, rfl⟩, rfl⟩ := h
    exact ⟨sign, mantissa, exponent, hsign, hmantissa, hexponent, rfl⟩
  · intro h
    obtain ⟨sign, mantissa, exponent, hsign, hmantissa, hexponent, heq⟩ := h
    exact ⟨sign, _, hsign, ⟨mantissa, exponent, hmantissa, hexponent, rfl⟩, heq⟩

end Pattern

end TableIntake.Lexical
